import Marketplace.Registry.Footprint
import Marketplace.ReadCommitted.Truthful

/-!
# Who owns a listing

A listing has an owner exactly when the account has an approved claim on it. The two are written
by two statements of one transaction, and between them the process that writes sees one approved
claim more than there are owners (`Marketplace.Registry.sees`); what it sees when it commits is
what is published then. What others publish meanwhile adds to both sides alike, since an owner
stays (`Marketplace.Registry.Held`), and so does what has been decided
(`Marketplace.Registry.Final`).
-/

namespace Marketplace.Registry

open ReadCommitted

variable {atlas : Atlas}

/-! ### Owners and approved claims -/

/-- The claim gives a listing to an account. -/
def Claim.Approves (k u : Uuid) (claim : Claim) : Prop :=
  claim.status = .approved ∧ claim.contractorId = k ∧ claim.userId = u

/-- It is published that an account owns a listing. -/
def Db.Owned (k u : Uuid) (db : Db) : Prop :=
  ∃ c, (db.contractors.slot k).committed = some c ∧ c.claimedByUserId = some u

/-- It is published that an account has an approved claim on a listing. -/
def Db.Granted (k u : Uuid) (db : Db) : Prop :=
  ∃ id claim, (db.claims.slot id).committed = some claim ∧ claim.Approves k u

/-- Process `i` sees that an account owns a listing. -/
def Db.Owns (i : ℕ) (k u : Uuid) (db : Db) : Prop :=
  ∃ c, db.contractors.row i k = some c ∧ c.claimedByUserId = some u

/-- Process `i` sees that an account has an approved claim on a listing. -/
def Db.Grants (i : ℕ) (k u : Uuid) (db : Db) : Prop :=
  ∃ id claim, db.claims.row i id = some claim ∧ claim.Approves k u

/-- A listing that has an owner keeps it. -/
def Held (v w : Option Contractor) : Prop :=
  ∀ c, v = some c → ∃ c', w = some c' ∧ ∀ u, c.claimedByUserId = some u → c'.claimedByUserId = some u

theorem Held.refl (v : Option Contractor) : Held v v := fun c hc => ⟨c, hc, fun _ hu => hu⟩

theorem Held.trans (u v w : Option Contractor) (h : Held u v) (h' : Held v w) : Held u w := by
  intro c hc
  obtain ⟨c₁, hc₁, hkept⟩ := h c hc
  obtain ⟨c₂, hc₂, hkept'⟩ := h' c₁ hc₁
  exact ⟨c₂, hc₂, fun u hu => hkept' u (hkept u hu)⟩

/-- **A claim keeps its listing and its account, and one that is decided stays as it is.** -/
def Final (v w : Option Claim) : Prop :=
  ∀ claim, v = some claim → ∃ claim', w = some claim' ∧
    claim'.contractorId = claim.contractorId ∧ claim'.userId = claim.userId ∧
    (claim.status ≠ .pending → claim' = claim)

theorem Final.refl (v : Option Claim) : Final v v := fun claim h => ⟨claim, h, rfl, rfl, fun _ => rfl⟩

theorem Final.trans (u v w : Option Claim) (h : Final u v) (h' : Final v w) : Final u w := by
  intro claim hclaim
  obtain ⟨claim₁, h₁, hcontractor, huser, hfinal⟩ := h claim hclaim
  obtain ⟨claim₂, h₂, hcontractor', huser', hfinal'⟩ := h' claim₁ h₁
  refine ⟨claim₂, h₂, hcontractor'.trans hcontractor, huser'.trans huser, fun hne => ?_⟩
  obtain rfl := hfinal hne
  exact hfinal' hne

theorem Final.approves {k u : Uuid} (v w : Option Claim) (h : Final v w) (claim : Claim)
    (hclaim : v = some claim) (ha : claim.Approves k u) :
    ∃ claim', w = some claim' ∧ claim'.Approves k u := by
  obtain ⟨claim', hclaim', -, -, hfinal⟩ := h claim hclaim
  have hne : claim.status ≠ .pending := by
    rw [ha.1]
    decide
  rw [hfinal hne] at hclaim'
  exact ⟨claim, hclaim', ha⟩

/-! ### What a statement does to them -/

/-- No statement but the one that gives a listing away changes its owner. -/
theorem Change.apply_owner {change : Change} {c : Contractor} :
    (change.apply c).claimedByUserId = c.claimedByUserId := by
  cases change <;> rfl

section Effects

variable {β : Type} {q : Query β} {i j : ℕ} {db db' : Db} {b : β}

theorem held_of_writes {k : Uuid} {o : Option Contractor} {c' : Contractor}
    (h : q.writesListing k o c') : Held o (some c') := by
  cases q with
  | listing m q =>
    cases q with
    | insert facts =>
      obtain ⟨rfl, -, -⟩ := h
      exact fun c hc => absurd hc.symm (Option.some_ne_none c)
    | update id change =>
      obtain ⟨-, -, c, rfl, rfl⟩ := h
      rintro _ ⟨⟩
      exact ⟨_, rfl, fun u hu => by rw [Change.apply_owner, hu]⟩
    | attach id userId now =>
      obtain ⟨-, c, rfl, hnone, rfl⟩ := h
      rintro _ ⟨⟩
      exact ⟨_, rfl, fun u hu => by rw [hnone] at hu; cases hu⟩
  | license | addVersion | importRun | trade | area | job | claim | grantRole | recordCheck
  | record | commit | rollback => exact h.elim

theorem final_of_writes {k : Uuid} {o : Option Claim} {claim' : Claim}
    (h : q.writesClaim k o claim') : Final o (some claim') := by
  cases q with
  | claim m q =>
    cases q with
    | insert claim =>
      obtain ⟨rfl, -⟩ := h
      exact fun claim hc => absurd hc.symm (Option.some_ne_none claim)
    | decide id status decidedBy note now =>
      obtain ⟨-, claim, rfl, hpending, hdecide⟩ := h
      obtain ⟨hcontractor, huser, -⟩ := Claim.decide_eq hdecide
      rintro _ ⟨⟩
      exact ⟨claim', rfl, hcontractor, huser, fun hne => absurd hpending hne⟩
  | license | addVersion | importRun | listing | trade | area | job | grantRole | recordCheck
  | record | commit | rollback => exact h.elim

/-- Owners stay, and so do decisions, in one step. -/
theorem ordered_step (h : q.run atlas i db = some (b, db')) (hc : db.contractors.Ordered Held)
    (hk : db.claims.Ordered Final) :
    (db'.contractors.Ordered Held ∧ Table.Grown Held db.contractors db'.contractors) ∧
      db'.claims.Ordered Final ∧ Table.Grown Final db.claims db'.claims :=
  ⟨(Query.contractors_effect h).ordered Held.refl Held.trans hc fun _ _ => held_of_writes,
    (Query.claims_effect h).ordered Final.refl Final.trans hk fun _ _ => final_of_writes⟩

/-- **An account has one listing at most.** -/
theorem atMostOne_step (h : q.run atlas i db = some (b, db'))
    (ht : db.contractors.AtMostOne Contractor.claimedByUserId) :
    db'.contractors.AtMostOne Contractor.claimedByUserId := by
  cases q with
  | listing m q =>
    obtain ⟨⟨b', t⟩, hq, he⟩ := Option.map_eq_some_iff.mp h
    cases he
    cases q with
    | insert facts =>
      rw [ListingStatement.run] at hq
      split at hq
      · exact ht.insertFresh hq fun g c hg => absurd hg.symm (Option.some_ne_none g)
      · cases hq
        exact ht
    | update k change =>
      refine ht.modify hq fun c' g hc' hg => Or.inl ?_
      obtain ⟨c, hrow, -, hc⟩ := Table.checking_cases hc'
      split at hc
      · cases hc
        exact ⟨c, hrow, by rw [← Change.apply_owner, hg]⟩
      · cases hc
    | attach k userId now =>
      refine ht.modifyUnique hq fun g c c' hg hg' => ?_
      rw [decide_eq_true_eq, hg, hg']
  | commit =>
    cases h
    exact ht.commit
  | rollback =>
    cases h
    exact ht.rollback
  | license | addVersion | importRun | trade | area | job | claim | grantRole | recordCheck
  | record =>
    obtain ⟨⟨b', t⟩, hq, he⟩ := Option.map_eq_some_iff.mp h
    cases he
    exact ht

end Effects

/-! ### Queries that neither give nor approve -/

/-- The query neither gives a listing away nor approves a claim, and does not end the
transaction. -/
def Query.isPlain {β : Type} : Query β → Prop
  | .listing m (.insert _) => m = .tx
  | .listing _ (.attach _ _ _) => False
  | .claim m (.insert c) => m = .tx ∧ c.status = .pending
  | .claim m (.decide _ status _ _ _) => m = .tx ∧ status.1 ≠ .approved
  | .commit | .rollback => False
  | _ => True

section Plain

variable {β : Type} {q : Query β} {i : ℕ} {db db' : Db} {b : β} {k u : Uuid}

/-- What a process sees of the owners, it sees after a plain query of its own. -/
theorem owns_plain (h : q.run atlas i db = some (b, db')) (hq : q.isPlain) :
    db'.Owns i k u ↔ db.Owns i k u := by
  cases q with
  | listing m q =>
    obtain ⟨⟨b', t⟩, hr, he⟩ := Option.map_eq_some_iff.mp h
    cases he
    refine (ListingStatement.written hr).seen_iff (fun m' l c' hA => ?_) k
    cases q with
    | insert facts =>
      obtain ⟨-, hnone, -, rfl⟩ := hA
      exact iff_of_false nofun fun ⟨c, hc, _⟩ => by rw [hnone] at hc; cases hc
    | update id change =>
      obtain ⟨-, -, -, c, hrow, rfl⟩ := hA
      rw [hrow, Change.apply_owner]
      simp
    | attach => exact hq.elim
  | commit | rollback => exact hq.elim
  | license | addVersion | importRun | trade | area | job | claim | grantRole | recordCheck
  | record =>
    obtain ⟨⟨b', t⟩, hr, he⟩ := Option.map_eq_some_iff.mp h
    cases he
    rfl

/-- What a process sees of the approved claims, it sees after a plain query of its own. -/
theorem grants_plain (h : q.run atlas i db = some (b, db')) (hq : q.isPlain) :
    db'.Grants i k u ↔ db.Grants i k u := by
  cases q with
  | claim m q =>
    obtain ⟨⟨b', t⟩, hr, he⟩ := Option.map_eq_some_iff.mp h
    cases he
    refine exists_congr fun id => (ClaimStatement.written hr).seen_iff (fun m' l c' hA => ?_) id
    cases q with
    | insert c =>
      obtain ⟨-, hnone, rfl⟩ := hA
      refine iff_of_false (fun ha => ?_) fun ⟨c, hc, _⟩ => by rw [hnone] at hc; cases hc
      rw [Claim.Approves, hq.2] at ha
      exact absurd ha.1 nofun
    | decide id status decidedBy note now =>
      obtain ⟨-, -, c, hrow, hpending, hdecide⟩ := hA
      obtain ⟨-, -, hstatus, -⟩ := Claim.decide_eq hdecide
      refine iff_of_false (fun ha => hq.2 (hstatus ▸ ha.1)) ?_
      rintro ⟨c₀, hc₀, ha, -⟩
      rw [hrow] at hc₀
      cases hc₀
      rw [hpending] at ha
      cases ha
  | commit | rollback => exact hq.elim
  | license | addVersion | importRun | listing | trade | area | job | grantRole | recordCheck
  | record =>
    obtain ⟨⟨b', t⟩, hr, he⟩ := Option.map_eq_some_iff.mp h
    cases he
    rfl

/-- A query in the open transaction publishes no owner. -/
theorem owned_tx {q : ListingStatement β} (h : (Query.listing .tx q).run atlas i db = some (b, db')) :
    db'.Owned k u ↔ db.Owned k u := by
  obtain ⟨⟨b', t⟩, hr, he⟩ := Option.map_eq_some_iff.mp h
  cases he
  have hsame := (ListingStatement.written hr).committed fun _ _ _ _ hA => hA.1
  rw [Db.Owned, hsame k, Db.Owned]

/-- A query in the open transaction publishes no claim. -/
theorem granted_tx {q : ClaimStatement β} (h : (Query.claim .tx q).run atlas i db = some (b, db')) :
    db'.Granted k u ↔ db.Granted k u := by
  obtain ⟨⟨b', t⟩, hr, he⟩ := Option.map_eq_some_iff.mp h
  cases he
  have hsame := (ClaimStatement.written hr).committed fun _ _ _ _ hA => hA.1
  exact exists_congr fun id => by rw [hsame id]

/-- A plain query does not change what is published of the owners. -/
theorem owned_plain (h : q.run atlas i db = some (b, db')) (hq : q.isPlain) :
    db'.Owned k u ↔ db.Owned k u := by
  cases q with
  | listing m q =>
    cases q with
    | insert facts =>
      obtain rfl : m = .tx := hq
      exact owned_tx h
    | update id change =>
      obtain ⟨⟨b', t⟩, hr, he⟩ := Option.map_eq_some_iff.mp h
      cases he
      rcases Table.committed_modify_cases hr k with hsame | ⟨rfl, c', hc', hput⟩
      · rw [Db.Owned, hsame, Db.Owned]
      · obtain ⟨c, hrow, -, hc⟩ := Table.checking_cases hc'
        split at hc
        · cases hc
          rw [Db.Owned, Db.Owned, hput, hrow]
          simp [Change.apply_owner]
        · cases hc
    | attach => exact hq.elim
  | commit | rollback => exact hq.elim
  | license | addVersion | importRun | trade | area | job | claim | grantRole | recordCheck
  | record =>
    obtain ⟨⟨b', t⟩, hr, he⟩ := Option.map_eq_some_iff.mp h
    cases he
    rfl

/-- A plain query does not change what is published of the approved claims. -/
theorem granted_plain (h : q.run atlas i db = some (b, db')) (hq : q.isPlain) :
    db'.Granted k u ↔ db.Granted k u := by
  cases q with
  | claim m q =>
    obtain rfl : m = .tx := by
      cases q with
      | insert c => exact hq.1
      | decide id status decidedBy note now => exact hq.1
    exact granted_tx h
  | commit | rollback => exact hq.elim
  | license | addVersion | importRun | listing | trade | area | job | grantRole | recordCheck
  | record =>
    obtain ⟨⟨b', t⟩, hr, he⟩ := Option.map_eq_some_iff.mp h
    cases he
    rfl

end Plain

/-! ### The end of a transaction -/

section Ends

variable {i : ℕ} {db : Db} {k u : Uuid}

/-- What is published by a commit is what its process saw. -/
theorem owned_commit : (db.commit i).Owned k u ↔ db.Owns i k u := by
  show (∃ c, (db.contractors.commit i |>.slot k).committed = some c ∧ _) ↔ _
  rw [Table.slot_commit, Slot.commit_committed]
  rfl

theorem granted_commit : (db.commit i).Granted k u ↔ db.Grants i k u := by
  refine exists_congr fun id => ?_
  show (∃ claim, (db.claims.commit i |>.slot id).committed = some claim ∧ _) ↔ _
  rw [Table.slot_commit, Slot.commit_committed]
  rfl

/-- What a process sees is not changed by its commit. -/
theorem owns_commit : (db.commit i).Owns i k u ↔ db.Owns i k u := by
  show (∃ c, (db.contractors.commit i).row i k = some c ∧ _) ↔ _
  rw [Table.row_commit]
  rfl

theorem grants_commit : (db.commit i).Grants i k u ↔ db.Grants i k u := by
  refine exists_congr fun id => ?_
  show (∃ claim, (db.claims.commit i).row i id = some claim ∧ _) ↔ _
  rw [Table.row_commit]

theorem owned_rollback : (db.rollback i).Owned k u ↔ db.Owned k u := by
  show (∃ c, (db.contractors.rollback i |>.slot k).committed = some c ∧ _) ↔ _
  rw [Table.slot_rollback, Slot.rollback_committed]
  rfl

theorem granted_rollback : (db.rollback i).Granted k u ↔ db.Granted k u := by
  refine exists_congr fun id => ?_
  show (∃ claim, (db.claims.rollback i |>.slot id).committed = some claim ∧ _) ↔ _
  rw [Table.slot_rollback, Slot.rollback_committed]

/-- What a process sees once it has rolled back is what is published. -/
theorem owns_rollback : (db.rollback i).Owns i k u ↔ db.Owned k u := by
  show (∃ c, (db.contractors.rollback i).row i k = some c ∧ _) ↔ _
  rw [Table.row_rollback]
  rfl

theorem grants_rollback : (db.rollback i).Grants i k u ↔ db.Granted k u := by
  refine exists_congr fun id => ?_
  show (∃ claim, (db.claims.rollback i).row i id = some claim ∧ _) ↔ _
  rw [Table.row_rollback]

end Ends

/-- A step that changes what is published publishes it. -/
theorem publishes_of_shown {C : Proviso ℕ Db Query} {i : ℕ}
    {d e : Config ℕ Db Call (Except AppError Response) Query} (hstep : StepOf (registry atlas) C i d e)
    (hne : e.db.shown ≠ d.db.shown) :
    ∃ call p, d.procs i = .running call p ∧
      Publishes (registry atlas) C Query.publishes i call d e := by
  cases hstep with
  | read hi => exact absurd rfl hne
  | @query call δ q k b s hi hC hq =>
    by_cases hpub : q.publishes
    · exact ⟨call, _, hi, .query hi hpub hC hq⟩
    · exact absurd (Query.shown_eq hq hpub) hne
  | @crash call p s hi hC hq =>
    have hrun : Query.rollback.run atlas i d.db = some ((), s) := hq
    exact absurd (Query.shown_eq hrun nofun) hne

end Marketplace.Registry
