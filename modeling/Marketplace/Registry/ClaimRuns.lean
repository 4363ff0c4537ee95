import Marketplace.Registry.Claimants

/-!
# Claims from a fair database

A database is fair when a listing has an owner exactly when the account has an approved claim on
it, and no account has two (`Marketplace.Registry.Db.Fair`). Every interleaving of the registry
leads from one to another, and no claim is decided twice
(`Marketplace.Registry.ownership_kept`).

What fails leaves things as they were, with one exception: a decision is read again after its
commit, and when that fails it stands, with an error for an answer
(`Marketplace.Registry.decision_outlives_error`).
-/

namespace Marketplace.Registry

open ReadCommitted

variable {atlas : Atlas} {i : ℕ}

/-! ### What is answered -/

section Truthful

variable {T : Db → Db → Prop} {contractorId userId id adminId : Uuid} {method : ClaimMethod}
  {evidence : Text} {note : Option Text} {requestId : Option Uuid} {approve : Bool}
  {fault later : Option ℕ}

/-- Opening a claim and deciding one publish nothing before they commit. -/
theorem allowsClaim_unpublished : AllowsClaim fun {_} q => ¬ q.publishes where
  verification _ _ _ _ := nofun
  insert _ := nofun
  decide _ _ _ _ _ := nofun
  attach _ _ _ := nofun
  grantRole _ _ _ := nofun
  recordCheck _ := nofun
  record _ := nofun

/-- **A claim whose opening is answered with an error has changed nothing.** -/
theorem truthful_openClaim :
    Truthful Query.publishes (fun _ _ => True)
      (fun done => Assertion.onOk (fun _ => .any) fun _ => .fact (¬ done)) False
      (openClaim atlas fault contractorId userId method evidence requestId).run
      (level : Assertion (ownersContract atlas) i) := by
  refine Truthful.transaction (Assertion.onOk (fun _ => level) fun _ => .any)
    (Safe.failAt safe_openRow fault fun _ _ _ => trivial)
    (Action.each_failAt (each_openRow allowsClaim_unpublished) fault) nofun ?_ trivial ?_
  · intro claim s b s' hs hlevel _ hq
    cases hq
    obtain ⟨hs', hg, -⟩ := commit_step atlas hs hlevel
    exact ⟨hs', hg, trivial, trivial⟩
  · intro e s b s' hs _ _ hq
    cases hq
    obtain ⟨hs', hg, -⟩ := rollback_step atlas (i := i) hs
    exact ⟨hs', hg, not_false⟩

/-- What is decided is published by the commit of who decided it. -/
theorem decidedAs_of_commit {φ : Claim → Prop} {s : Db} (h : Settled id φ i s) :
    (decidedAs id φ : Assertion (ownersContract atlas) i).holds (s.commit i) := by
  obtain ⟨claim, hrow, hclaim⟩ := h
  refine ⟨claim, ?_, hclaim⟩
  show ((s.claims.commit i).slot id).committed = some claim
  rw [Table.slot_commit, Slot.commit_committed]
  exact hrow

/-- A claim that is decided is there to be read again. -/
theorem safe_reread {outcome : Outcome} {φ : Claim → Prop} :
    Safe (Assertion.onOk (fun _ => .any) fun _ => .fact False)
      (reread id outcome).run (decidedAs id φ : Assertion (ownersContract atlas) i) := by
  refine Safe.read (fun o => .fact (o ≠ none)) (fun s hs hP => ?_) fun o => ?_
  · obtain ⟨claim, hc, -⟩ := hP
    obtain ⟨claim', hrow, -⟩ := Table.Ordered.le_row hs.final Final.refl i id claim hc
    show s.claims.row i id ≠ none
    rw [hrow]
    exact Option.some_ne_none claim'
  · cases o with
    | none => exact fun s _ h => absurd rfl h
    | some claim => exact fun s _ _ => trivial

theorem each_reread {outcome : Outcome} {ψ : {β : Type} → Query β → Prop} :
    (reread id outcome).run.Each ψ := by
  intro claim
  cases claim <;> trivial

/-- What is known of a decision that is answered with an error: it stands. -/
theorem safe_failAt_reread {outcome : Outcome} {φ : Claim → Prop} :
    Safe (Assertion.onOk (fun _ => .any) fun _ =>
        (Assertion.fact (later ≠ none)).and (decidedAs id φ))
      (Registering.failAt later (reread id outcome)).run
      (decidedAs id φ : Assertion (ownersContract atlas) i) := by
  rcases later with _ | n
  · have hnone : (Registering.failAt none (reread id outcome)).run = (reread id outcome).run :=
      Prog.failAt_none
    rw [hnone]
    refine safe_reread.conseq (fun _ _ h => h) fun a s _ h => ?_
    cases a with
    | ok decision => trivial
    | error e => exact h.elim
  · refine (Safe.keep (Action.each_failAt each_reread (some n))).conseq (fun _ _ h => h)
      fun a s _ h => ?_
    cases a with
    | ok decision => trivial
    | error e => exact ⟨Option.some_ne_none n, h⟩

/-- **A decision that is answered with an error has changed nothing, or stands.** -/
theorem truthful_decideClaim :
    Truthful Query.publishes (fun _ _ => True)
      (fun done => Assertion.onOk (fun _ => .any) fun _ => .imp done
        ((Assertion.fact (later ≠ none)).and
          (decidedAs id (DecidedBy (verdict approve) adminId)))) False
      (decideClaim atlas fault later id approve adminId note requestId).run
      (level : Assertion (ownersContract atlas) i) := by
  refine Truthful.andThen
    (fun _ _ => decidedAs id (DecidedBy (verdict approve) adminId)) ?_ fun done outcome => ?_
  · refine Truthful.transaction (Assertion.onOk
        (fun _ => level.and (settled id (DecidedBy (verdict approve) adminId))) fun _ => .any)
      (Safe.failAt safe_decideRow fault fun _ _ _ => trivial)
      (Action.each_failAt (each_decideRow allowsClaim_unpublished) fault) nofun ?_ trivial ?_
    · intro outcome s b s' hs hP _ hq
      cases hq
      obtain ⟨hs', hg, -⟩ := commit_step atlas hs hP.1
      exact ⟨hs', hg, decidedAs_of_commit hP.2, trivial⟩
    · intro e s b s' hs _ _ hq
      cases hq
      obtain ⟨hs', hg, -⟩ := rollback_step atlas (i := i) hs
      exact ⟨hs', hg, False.elim⟩
  · have hnone : (Registering.failAt later (reread id outcome)).run.Each
        fun {_} q => ¬ q.publishes := Action.each_failAt each_reread later
    -- nothing is published any more, and what is decided stays so
    refine (Truthful.of_safe safe_failAt_reread hnone).conseq (fun _ _ h => h) fun done a s _ h => ?_
    cases a with
    | ok decision => trivial
    | error e => exact fun _ => h.2

end Truthful

/-- The request opens a claim, or decides one. -/
def Request.approves : Request → Prop
  | .openClaim _ _ _ _ | .decideClaim _ _ _ _ => True
  | _ => False

/-- The other requests neither give a listing away nor approve a claim. -/
theorem each_serve_orderly {call : Call} (h : ¬ call.request.approves) :
    (serve atlas call).run.Each Query.isOrderly := by
  have hlocation : AllowsLocation Query.isOrderly := ⟨fun _ _ _ => trivial⟩
  have hbadge : AllowsBadge Query.isOrderly := ⟨fun _ _ _ _ => trivial⟩
  have himport : AllowsImport Query.isOrderly :=
    { hlocation, hbadge with
      commit := trivial
      rollback := trivial
      license := fun _ => trivial
      addVersion := fun _ _ _ => trivial
      importRun := fun _ => trivial
      insert := fun _ => rfl
      displayName := fun _ _ => trivial
      postalCode := fun _ _ _ => trivial
      addTrade := fun _ _ => trivial
      dropTrade := fun _ => trivial
      enqueue := fun _ _ _ => trivial }
  have hpass : AllowsPass Query.isOrderly :=
    { hlocation with
      commit := trivial
      rollback := trivial
      job := fun _ _ => trivial
      precisePoint := fun _ _ => trivial }
  obtain ⟨request, requestId, fault, later⟩ := call
  cases request with
  | importFile options => exact Action.each_andThen (each_runImport himport) fun _ => trivial
  | rederive =>
    exact Action.each_andThen
      (each_rederiveCslbTrades trivial trivial (fun _ => trivial) fun _ => trivial) fun _ => trivial
  | runOnce config => exact Action.each_andThen (each_runOnce hpass) fun _ => trivial
  | recomputeAll page pages =>
    exact Action.each_andThen (each_recomputeAll trivial trivial hbadge) fun _ => trivial
  | openClaim => exact absurd trivial h
  | withdrawClaim id userId =>
    refine Action.each_andThen (each_inTransaction trivial trivial ?_) fun _ => trivial
    exact each_withdrawRow (fun _ => ⟨rfl, nofun⟩) fun _ => trivial
  | decideClaim => exact absurd trivial h
  | updateProfile caller id body =>
    exact Action.each_andThen
      (each_updateProfile hlocation trivial trivial (fun _ => trivial) fun _ _ _ => trivial)
      fun _ => trivial
  | setPhoto caller id key bytes =>
    exact Action.each_andThen (each_setPhoto fun _ => trivial) fun _ => trivial
  | removePhoto caller id =>
    exact Action.each_andThen (each_removePhoto fun _ => trivial) fun _ => trivial
  | putServiceAreas caller id inputs =>
    exact Action.each_andThen
      (each_putServiceAreas trivial trivial (fun _ => trivial) (fun _ => trivial) fun _ => trivial)
      fun _ => trivial
  | reportTrade contractorId tradeId held => exact ⟨trivial, fun _ => trivial⟩

/-- What is known of an answer: an error of an opening or a decision has changed nothing, unless
the decision stands. -/
def answeredAs (call : Call) (done : Prop) :
    Except AppError Response → Assertion (ownersContract atlas) i
  | .ok _ => .any
  | .error _ => match call.request with
    | .openClaim _ _ _ _ => .fact (¬ done)
    | .decideClaim id approve adminId _ => .imp done
        ((Assertion.fact (call.later ≠ none)).and
          (decidedAs id (DecidedBy (verdict approve) adminId)))
    | _ => .any

/-- **Every request is truthful.** -/
theorem truthful_serve (call : Call) :
    Truthful Query.publishes (fun _ _ => True) (answeredAs call) False (serve atlas call).run
      (level : Assertion (ownersContract atlas) i) := by
  by_cases h : call.request.approves
  · obtain ⟨request, requestId, fault, later⟩ := call
    cases request with
    | openClaim contractorId userId method evidence =>
      exact Truthful.andThen (fun _ _ => .any) truthful_openClaim fun _ _ _ _ _ => trivial
    | decideClaim id approve adminId note =>
      exact Truthful.andThen (fun _ _ => .any) truthful_decideClaim fun _ _ _ _ _ => trivial
    | importFile | rederive | runOnce | recomputeAll | withdrawClaim | updateProfile | setPhoto
    | removePhoto | putServiceAreas | reportTrade => exact h.elim
  · have hkeep : (serve atlas call).run.Each fun {_} q =>
        (ownersContract atlas).Keeps (level : Assertion (ownersContract atlas) i) q :=
      (each_serve_orderly h).mono fun _ hq => level_keeps hq
    refine (Truthful.of_safe_any (Safe.keep hkeep) fun _ _ => trivial).conseq (fun _ _ h => h)
      fun done a s _ _ => ?_
    cases a with
    | ok response => trivial
    | error e =>
      rw [answeredAs]
      split
      · rename_i hrequest
        exact absurd (by rw [hrequest]; trivial) h
      · rename_i hrequest
        exact absurd (by rw [hrequest]; trivial) h
      · trivial

/-! ### Whole runs -/

/-- **A fair database**: a listing has an owner exactly when the account has an approved claim on
it, has one at most, and no account has two listings. -/
structure Db.Fair (db : Db) : Prop where
  agree : ∀ k u, db.Owned k u ↔ db.Granted k u
  sole : ∀ k u u', db.Owned k u → db.Owned k u' → u = u'
  single : ∀ k k' u, db.Owned k u → db.Owned k' u → k = k'

/-- No transaction holds a listing or a claim. -/
structure Db.Unheld (db : Db) : Prop where
  contractors : ∀ k, (db.contractors.slot k).lock = none
  claims : ∀ id, (db.claims.slot id).lock = none

section Runs

variable {s₀ : Db} {c d e : Config ℕ Db Call (Except AppError Response) Query}

theorem Db.Fair.ownersInv (hfair : s₀.Fair) (hrest : s₀.Unheld) : OwnersInv s₀ where
  held k j v hv := by
    rw [hrest.contractors k] at hv
    cases hv
  final id j v hv := by
    rw [hrest.claims id] at hv
    cases hv
  single := Table.AtMostOne.of_unlocked hrest.contractors fun hk hl => hfair.single _ _ _ hk hl
  agree := hfair.agree

theorem OwnersInv.fair {s : Db} (h : OwnersInv s) : s.Fair where
  agree := h.agree
  sole := by
    rintro k u u' ⟨c, hc, hu⟩ ⟨c', hc', hu'⟩
    rw [hc] at hc'
    cases hc'
    exact Option.some.inj (hu.symm.trans hu')
  single _ _ _ hk hl := h.single.published hk hl

theorem Db.Fair.level (hfair : s₀.Fair) (hrest : s₀.Unheld) :
    (level : Assertion (ownersContract atlas) i).holds s₀ := by
  have hcontractors : ∀ k, s₀.contractors.row i k = (s₀.contractors.slot k).committed :=
    fun k => Slot.visible_of_unlocked (hrest.contractors k)
  have hclaims : ∀ id, s₀.claims.row i id = (s₀.claims.slot id).committed :=
    fun id => Slot.visible_of_unlocked (hrest.claims id)
  intro k u
  rw [or_false, Db.Owns, hcontractors, Db.Grants]
  simp only [hclaims]
  exact (hfair.agree k u).symm

/-- **The steps of a process have changed nothing that is published** of the listings, claims,
roles, checks and events. -/
def Untouched (atlas : Atlas) (s₀ : Db) (i : ℕ)
    (c : Config ℕ Db Call (Except AppError Response) Query) : Prop :=
  ∀ d e, Reachable (registry atlas) anyQuery (.initial s₀) d →
    StepOf (registry atlas) anyQuery i d e → Reachable (registry atlas) anyQuery e c →
      e.db.shown = d.db.shown

/-- A process that has answered has changed nothing, or it is known of its answer that it has
published something. -/
theorem untouched_or_answered (hrest : s₀.Unheld) (hfair : s₀.Fair)
    {call : Call} {a : Except AppError Response}
    (hserved : c.Served i call a) :
    Untouched atlas s₀ i c ∨ (answeredAs call True a : Assertion (ownersContract atlas) i).holds c.db := by
  by_cases h : Untouched atlas s₀ i c
  · exact Or.inl h
  · simp only [Untouched, not_forall] at h
    obtain ⟨d, e, hd, hstep, he, hne⟩ := h
    obtain ⟨call', p, -, hpub⟩ := publishes_of_shown hstep hne
    obtain rfl := hpub.served he hserved
    have htold := (ownersContract atlas).published (fun _ call => truthful_serve call)
      (hfair.ownersInv hrest) (fun _ => hfair.level hrest) hd hpub
    exact Or.inr (htold.2 c a he hserved)

/-- **Owners and claims go together**, in every interleaving of the registry: a fair database
stays fair, a claim that is decided stays as it is, the opening of a claim that fails has changed
nothing, and neither has a decision that fails, unless it stands and what failed came after its
commit. -/
theorem ownership_kept (atlas : Atlas) (hrest : s₀.Unheld) (hfair : s₀.Fair)
    (h : Reachable (registry atlas) anyQuery (.initial s₀) c) :
    c.db.Fair ∧
      (∀ d, Reachable (registry atlas) anyQuery c d → ∀ id claim,
        (c.db.claims.slot id).committed = some claim → claim.status ≠ .pending →
          (d.db.claims.slot id).committed = some claim) ∧
      (∀ i call e, c.Served i call (.error e) →
        (∀ k u method evidence, call.request = .openClaim k u method evidence →
          Untouched atlas s₀ i c) ∧
        ∀ id approve adminId note, call.request = .decideClaim id approve adminId note →
          Untouched atlas s₀ i c ∨ call.later ≠ none ∧
            ∃ claim, (c.db.claims.slot id).committed = some claim ∧
              claim.status = (verdict approve).1 ∧ claim.decidedBy = some adminId) := by
  have htruthful (i : ℕ) (call : Call) :
      Truthful Query.publishes (fun _ _ => True) (answeredAs call) False (serve atlas call).run
        (level : Assertion (ownersContract atlas) i) :=
    truthful_serve call
  have hsafe := fun i call => (htruthful i call).safe
  obtain ⟨hinv, htracked⟩ := (ownersContract atlas).of_reachable hsafe (hfair.ownersInv hrest)
    (fun _ => hfair.level hrest) h
  refine ⟨hinv.fair, fun d hd id claim hclaim hne => ?_, fun i call e hserved => ⟨?_, ?_⟩⟩
  · obtain ⟨hgrown, -⟩ := (ownersContract atlas).rel_of_reachable hsafe
      (fun s s' => Table.Grown Final s.claims s'.claims)
      (fun s id => Final.refl _) (fun s t u hst htu id => Final.trans _ _ _ (hst id) (htu id))
      (fun _ _ _ _ _ hg => hg.final) (fun s n id => Final.refl _) hinv htracked hd
    obtain ⟨claim', hclaim', -, -, hsame⟩ := hgrown id claim hclaim
    rw [hclaim', hsame hne]
  · intro k u method evidence hrequest
    refine (untouched_or_answered hrest hfair hserved).resolve_right fun htold => ?_
    rw [answeredAs, hrequest] at htold
    exact htold trivial
  · intro id approve adminId note hrequest
    refine (untouched_or_answered hrest hfair hserved).imp_right fun htold => ?_
    rw [answeredAs, hrequest] at htold
    obtain ⟨hlater, claim, hclaim, -, hdecided⟩ := htold trivial
    exact ⟨hlater, claim, hclaim, hdecided⟩

/-- Listing `1`, which nobody has, and a claim on it by account `9`. -/
def Db.oneClaim : Db where
  contractors := Table.empty.put 1
    { committed := some
        (SourceFacts.row ⟨1, "Reed Plumbing".toList, "reed-plumbing".toList, none, none⟩) }
  claims := Table.empty.put 5
    { committed := some
        { contractorId := 1, userId := 9, method := .manualReview, evidence := [], createdAt := 0
          decided_iff_not_pending := pending_iff_undecided } }

theorem Db.oneClaim_unheld : Db.oneClaim.Unheld where
  contractors k := by
    rcases eq_or_ne k 1 with rfl | hne
    · rfl
    · rw [Db.oneClaim, Table.slot_put_of_ne hne]
      rfl
  claims id := by
    rcases eq_or_ne id 5 with rfl | hne
    · rfl
    · rw [Db.oneClaim, Table.slot_put_of_ne hne]
      rfl

theorem Db.oneClaim_fair : Db.oneClaim.Fair := by
  have hfree : ∀ k u, ¬ Db.oneClaim.Owned k u := by
    rintro k u ⟨c, hc, hu⟩
    rcases eq_or_ne k 1 with rfl | hne
    · cases hc
      cases hu
    · rw [Db.oneClaim, Table.slot_put_of_ne hne] at hc
      cases hc
  have hpending : ∀ k u, ¬ Db.oneClaim.Granted k u := by
    rintro k u ⟨id, claim, hc, ha⟩
    rcases eq_or_ne id 5 with rfl | hne
    · cases hc
      cases ha.1
    · rw [Db.oneClaim, Table.slot_put_of_ne hne] at hc
      cases hc
  exact ⟨fun k u => iff_of_false (hfree k u) (hpending k u), fun k u u' h => absurd h (hfree k u),
    fun k k' u h => absurd h (hfree k u)⟩

/-- An administrator approves the claim, and cannot read it again. -/
def approvalUnread : Call where
  request := .decideClaim 5 true 3 none
  later := some 0

/-- A decision that has been committed, and is answered with an error: account `9` owns the
listing. -/
theorem ownership_kept_approvalUnread :
    ∃ c, Reachable (registry .plain) anyQuery (.initial .oneClaim) c ∧
      c.Served 0 approvalUnread (.error (.internal "the statement failed")) ∧ c.db.Fair ∧
      c.db.Owned 1 9 := by
  have hrun := exists_of_exec (registry .plain)
    (.arrive 0 approvalUnread :: List.replicate 13 (.run 0)) (.initial .oneClaim)
    (fun c => decide (c.Served 0 approvalUnread (.error (.internal "the statement failed"))) &&
      decide ((c.db.contractors.slot 1).committed.map (fun x => x.claimedByUserId) = some (some 9)))
    (by decide +kernel)
  obtain ⟨c, hc, hserved⟩ := hrun
  rw [Bool.and_eq_true, decide_eq_true_eq, decide_eq_true_eq] at hserved
  obtain ⟨x, hx, howner⟩ := Option.map_eq_some_iff.mp hserved.2
  exact ⟨c, hc, hserved.1,
    (ownership_kept .plain Db.oneClaim_unheld Db.oneClaim_fair hc).1, x, hx, howner⟩

/-- **A decision that is answered with an error may stand**: it has been committed, and could not
be read again. -/
theorem decision_outlives_error :
    Db.oneClaim.Fair ∧ ¬ ∀ c i call e id approve adminId note,
      Reachable (registry .plain) anyQuery (.initial .oneClaim) c →
        call.request = .decideClaim id approve adminId note → c.Served i call (.error e) →
          Untouched .plain .oneClaim i c := by
  have hrun := exists_of_exec_stepOf_exec (registry .plain)
    (.arrive 0 approvalUnread :: List.replicate 12 (.run 0)) 0 [] (.initial .oneClaim)
    (fun d d' c => decide (c.Served 0 approvalUnread (.error (.internal "the statement failed"))) &&
      decide ((d'.db.claims.slot 5).committed ≠ (d.db.claims.slot 5).committed))
    (by decide +kernel)
  refine ⟨Db.oneClaim_fair, fun huntouched => ?_⟩
  obtain ⟨d, d', c, hd, hstep, hc, hserved⟩ := hrun
  rw [Bool.and_eq_true, decide_eq_true_eq, decide_eq_true_eq] at hserved
  have hreach : Reachable (registry .plain) anyQuery (.initial .oneClaim) c :=
    (hd.tail hstep.step).trans hc
  have hsame := huntouched c 0 approvalUnread _ 5 true 3 none hreach rfl hserved.1 d d' hd hstep hc
  exact hserved.2 (congrFun (congrArg (fun shown => shown.2.1) hsame) 5)

end Runs

end Marketplace.Registry
