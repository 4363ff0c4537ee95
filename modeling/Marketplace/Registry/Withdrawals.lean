import Marketplace.Registry.ClaimRuns

/-!
# Withdrawing a claim

A claimant withdraws a claim that is still pending: the request finds out that it is, and the
update that decides the claim finds out again. Whether it did, the request does not ask; so what it
answers is true as long as nobody has decided the claim in between
(`Marketplace.Registry.Unraced`), and is not otherwise
(`Marketplace.Registry.not_always_withdrawn`).
-/

namespace Marketplace.Registry

open Audit (AuditEvent)
open ReadCommitted

variable {atlas : Atlas} {C : Proviso ℕ Db Query} {i : ℕ}

/-! ### The contract -/

/-- What a step may do: no decision is taken back. -/
structure DecisionsGuar (j : ℕ) (s s' : Db) : Prop where
  claims : Table.Moves j s.claims s'.claims
  audit : Table.Moves j s.audit s'.audit
  final : Table.Grown Final s.claims s'.claims

section Step

variable {β : Type} {q : Query β} {s s' : Db} {b : β}

theorem audit_moves (h : q.run atlas i s = some (b, s')) : Table.Moves i s.audit s'.audit := by
  cases q with
  | record m event =>
    obtain ⟨⟨b', t⟩, ht, he⟩ := Option.map_eq_some_iff.mp h
    cases he
    have heffect : s.audit.Effect (fun _ _ _ => True) i t :=
      Table.effect_of_insertFresh ht trivial
    exact heffect.moves
  | commit =>
    cases h
    exact Table.moves_commit i _
  | rollback =>
    cases h
    exact Table.moves_rollback i _
  | license | addVersion | importRun | listing | trade | area | job | claim | grantRole
  | recordCheck =>
    obtain ⟨⟨b', t⟩, ht, he⟩ := Option.map_eq_some_iff.mp h
    cases he
    exact .refl i _

theorem decisions_step (hs : s.claims.Ordered Final) (h : q.run atlas i s = some (b, s')) :
    s'.claims.Ordered Final ∧ DecisionsGuar i s s' := by
  obtain ⟨hfinal, hgrown⟩ := (Query.claims_effect h).ordered Final.refl Final.trans hs
    fun _ _ => final_of_writes
  exact ⟨hfinal, (Query.claims_effect h).moves, audit_moves h, hgrown⟩

end Step

/-- **The contract of a withdrawal**: decisions stay. -/
def decisionsContract (atlas : Atlas) (C : Proviso ℕ Db Query) : Contract (registry atlas) C where
  inv s := s.claims.Ordered Final
  guar := DecisionsGuar
  inv_tick _ h := h
  rollback := by
    intro i s s' h _ hq
    have hrun : Query.rollback.run atlas i s = some ((), s') := hq
    exact decisions_step h hrun

theorem decisions_sound {β : Type} (q : Query β) : (decisionsContract atlas C).Sound q :=
  fun _ _ _ _ hs _ hq => decisions_step hs hq

/-! ### What a withdrawal knows -/

variable {id userId : Uuid} {requestId : Option Uuid} {fault : Option ℕ}

/-- The process holds no claim. -/
def free : Assertion (decisionsContract atlas C) i where
  holds s := ∀ id v, (s.claims.slot id).lock ≠ some (i, v)
  stable hne _ _ hg h id v hlock := h id v ((hg.claims.lock_iff hne).mp hlock)
  tick _ _ h := h

/-- The process is about to publish that a pending claim is withdrawn. -/
def withdrawing (id : Uuid) : Assertion (decisionsContract atlas C) i where
  holds s := ∃ claim claim', (s.claims.slot id).committed = some claim ∧ claim.status = .pending ∧
    s.claims.Draft i id claim' ∧ claim'.status = .withdrawn
  stable := by
    rintro j s s' hne - - hg ⟨claim, claim', hc, hpending, hdraft, hstatus⟩
    have hsame : s'.claims.slot id = s.claims.slot id := (hg.claims id).eq_of_held hdraft hne.symm
    exact ⟨claim, claim', by rw [hsame, hc], hpending, by rwa [Table.Draft, hsame], hstatus⟩
  tick _ _ h := h

/-- The process is about to publish an event. -/
def recording (event : AuditEvent) : Assertion (decisionsContract atlas C) i where
  holds s := ∃ k, (s.audit.slot k).committed = none ∧ s.audit.Draft i k event
  stable := by
    rintro j s s' hne - - hg ⟨k, hnone, hdraft⟩
    have hsame : s'.audit.slot k = s.audit.slot k := (hg.audit k).eq_of_held hdraft hne.symm
    exact ⟨k, by rw [hsame, hnone], by rwa [Table.Draft, hsame]⟩
  tick _ _ h := h

/-- **A step withdraws a claim**: it was pending, and is withdrawn, and the event that says so has
been written. -/
structure Withdraws (id userId : Uuid) (requestId : Option Uuid) (s s' : Db) : Prop where
  before : ∃ claim, (s.claims.slot id).committed = some claim ∧ claim.status = .pending
  after : ∃ claim, (s'.claims.slot id).committed = some claim ∧ claim.status = .withdrawn
  recorded : ∃ k, (s.audit.slot k).committed = none ∧
    (s'.audit.slot k).committed = some (withdrawn id userId requestId)

/-- **Nobody is overtaken**: an update that withdraws a claim finds it pending. -/
def Unraced : Proviso ℕ Db Query := fun i q db => match q with
  | .claim _ (.decide id status _ _ _) =>
    status.1 = .withdrawn → ∃ claim, db.claims.row i id = some claim ∧ claim.status = .pending
  | _ => True

theorem withdraws_of_commit {s : Db}
    (h : (withdrawing id : Assertion (decisionsContract atlas C) i).holds s)
    (hrecord : (recording (withdrawn id userId requestId) :
      Assertion (decisionsContract atlas C) i).holds s) :
    Withdraws id userId requestId s (s.commit i) := by
  obtain ⟨claim, claim', hc, hpending, hdraft, hstatus⟩ := h
  obtain ⟨k, hnone, hevent⟩ := hrecord
  refine ⟨⟨claim, hc, hpending⟩, ⟨claim', ?_, hstatus⟩, k, hnone, ?_⟩
  · show ((s.claims.commit i).slot id).committed = some claim'
    rw [Table.slot_commit, Slot.commit_committed]
    exact hdraft.row
  · show ((s.audit.commit i).slot k).committed = some _
    rw [Table.slot_commit, Slot.commit_committed]
    exact hevent.row

/-- **The update that withdraws a claim finds it pending.** -/
theorem safe_claimsWithdraw {note : Option Text} :
    Safe (Assertion.onOk (fun _ => withdrawing id) fun _ => .any)
      (Claims.decide id ⟨.withdrawn, nofun⟩ userId note).run
      (free : Assertion (decisionsContract atlas Unraced) i) := by
  refine Safe.look_keep fun now => Safe.query_andThen
    (Assertion.onSome (Assertion.onSome fun _ => withdrawing id))
    (fun s b s' hs hP hC hq => ?_) fun b => ?_
  · have hrun : (Query.claim .tx (.decide id ⟨.withdrawn, nofun⟩ userId note now)).run atlas i s =
      some (b, s') := hq
    obtain ⟨hs', hg⟩ := decisions_step hs hrun
    refine ⟨hs', hg, ?_⟩
    rcases b with _ | _ | hit
    · trivial
    · trivial
    obtain ⟨claim₀, hrow₀, hpending₀⟩ := hC rfl
    obtain ⟨-, claim, claim', hrow, hpending, hdecide, rfl⟩ | ⟨-, -, hno⟩ := decide_cases hrun
    · obtain ⟨-, -, hstatus, -⟩ := Claim.decide_eq hdecide
      have hcommitted : s.claims.row i id = (s.claims.slot id).committed := by
        rcases Slot.visible_cases i (s.claims.slot id) with hlock | hc
        · exact absurd hlock (hP id _)
        · exact hc
      refine ⟨claim, claim', ?_, hpending, Table.draft_put, hstatus⟩
      rw [Table.slot_put_self]
      exact hcommitted.symm.trans hrow
    · exact absurd hpending₀ (hno claim₀ hrow₀)
  · rcases b with _ | _ | hit
    · exact fun s _ _ => trivial
    · exact fun s _ _ => trivial
    · exact fun s _ h => h

/-- An event that is written is about to be published. -/
theorem safe_record_withdrawing {event : AuditEvent} :
    Safe (Assertion.onOk (fun _ => (withdrawing id).and (recording event)) fun _ => .any)
      (record event).run (withdrawing id : Assertion (decisionsContract atlas Unraced) i) := by
  refine Safe.query_andThen
    (Assertion.onSome fun _ => (withdrawing id).and (recording event))
    (fun s b s' hs hP _ hq => ?_) fun b => ?_
  · have hrun : (Query.record .tx event).run atlas i s = some (b, s') := hq
    obtain ⟨hs', hg⟩ := decisions_step hs hrun
    refine ⟨hs', hg, ?_⟩
    cases b with
    | none => trivial
    | some k =>
      obtain ⟨⟨o, t⟩, ht, he⟩ := Option.map_eq_some_iff.mp hrun
      cases he
      obtain ⟨-, ⟨hnone, -⟩ | ⟨hk, rfl, -⟩⟩ := Table.insertFresh_cases ht
      · cases hnone
      · exact ⟨hP, _, Table.committed_put_fresh, Table.draft_put⟩
  · cases b with
    | none => exact fun s _ _ => trivial
    | some k => exact fun s _ h => h

theorem safe_withdrawRow :
    Safe (Assertion.onOk
        (fun _ => (withdrawing id).and (recording (withdrawn id userId requestId))) fun _ => .any)
      (withdrawRow id userId requestId).run
      (free : Assertion (decisionsContract atlas Unraced) i) := by
  refine Safe.look_keep fun claim => ?_
  cases claim with
  | none => exact fun s _ _ => trivial
  | some claim =>
    show Safe _ (if claim.userId ≠ userId then _ else _ : Registering Unit).run _
    split
    · exact fun s _ _ => trivial
    split
    · exact fun s _ _ => trivial
    exact Safe.andThen _ safe_claimsWithdraw fun _ => safe_record_withdrawing

/-! ### What is answered -/

/-- What a step that publishes does, when it is one of a withdrawal. -/
def Call.Does (call : Call) (s s' : Db) : Prop :=
  ∀ id userId, call.request = .withdrawClaim id userId → Withdraws id userId call.requestId s s'

/-- What is known of an answer: a withdrawal that is answered well has published something, and one
that is answered with an error has not. -/
def answeredWell (call : Call) (done : Prop) :
    Except AppError Response → Assertion (decisionsContract atlas C) i
  | .ok _ => .fact (∀ id userId, call.request = .withdrawClaim id userId → done)
  | .error _ => .fact (∀ id userId, call.request = .withdrawClaim id userId → ¬ done)

theorem truthful_withdrawClaim {later : Option ℕ} :
    Truthful Query.publishes (Call.Does ⟨.withdrawClaim id userId, requestId, fault, later⟩)
      (fun done => Assertion.onOk (fun _ => .fact done) fun _ => .fact (¬ done)) False
      (withdrawClaim fault id userId requestId).run
      (free : Assertion (decisionsContract atlas Unraced) i) := by
  refine Truthful.transaction (Assertion.onOk
      (fun _ => (withdrawing id).and (recording (withdrawn id userId requestId))) fun _ => .any)
    (Safe.failAt safe_withdrawRow fault fun _ _ _ => trivial)
    (Action.each_failAt (each_withdrawRow (fun _ => nofun) fun _ => nofun) fault) nofun ?_ trivial ?_
  · intro a s b s' hs hP _ hq
    have hrun : Query.commit.run atlas i s = some (b, s') := hq
    have hstep := decisions_step hs hrun
    cases hrun
    refine ⟨hstep.1, hstep.2, trivial, fun id' userId' he => ?_⟩
    cases he
    exact withdraws_of_commit hP.1 hP.2
  · intro e s b s' hs _ _ hq
    have hrun : Query.rollback.run atlas i s = some (b, s') := hq
    obtain ⟨hs', hg⟩ := decisions_step hs hrun
    exact ⟨hs', hg, not_false⟩

/-- **Every request is truthful.** -/
theorem truthful_serve_withdrawing (call : Call) :
    Truthful Query.publishes call.Does (answeredWell call) False (serve atlas call).run
      (free : Assertion (decisionsContract atlas Unraced) i) := by
  by_cases h : ∃ id userId, call.request = .withdrawClaim id userId
  · obtain ⟨request, requestId, fault, later⟩ := call
    obtain ⟨id, userId, rfl⟩ := h
    refine Truthful.andThen (fun done _ => .fact done) (truthful_withdrawClaim.conseq
      (fun _ _ h => h) fun done a s _ ha => ?_) fun done _ s _ hdone _ _ _ => hdone
    cases a with
    | ok r => exact ha
    | error e => exact fun _ _ _ => ha
  · have hother : ∀ id userId, call.request ≠ .withdrawClaim id userId :=
      fun id userId he => h ⟨id, userId, he⟩
    have hsound : (serve atlas call).run.Each fun {_} q =>
        (decisionsContract atlas Unraced).Sound q := Prog.each_of_forall fun q => decisions_sound q
    refine (Truthful.of_safe_any (Safe.of_sound hsound) fun s s' id userId he =>
      absurd he (hother id userId)).conseq (fun _ _ _ => trivial) fun done a s _ _ => ?_
    cases a with
    | ok r => exact fun id userId he => absurd he (hother id userId)
    | error e => exact fun id userId he => absurd he (hother id userId)

/-! ### Whole runs -/

/-- **A withdrawal is truthful**: when it is answered well, one of its steps has withdrawn the
claim, and written the event; when it is answered with an error, it has changed nothing; and no
step of it changes anything else. -/
structure TruthfulWithdrawal (atlas : Atlas) (C : Proviso ℕ Db Query) (s₀ : Db) (i : ℕ)
    (id userId : Uuid) (requestId : Option Uuid) (fault later : Option ℕ)
    (c : Config ℕ Db Call (Except AppError Response) Query) : Prop where
  ok : ∀ r, c.Served i ⟨.withdrawClaim id userId, requestId, fault, later⟩ (.ok r) →
    ∃ d e, Reachable (registry atlas) C (.initial s₀) d ∧ StepOf (registry atlas) C i d e ∧
      Reachable (registry atlas) C e c ∧ Withdraws id userId requestId d.db e.db
  error : ∀ err, c.Served i ⟨.withdrawClaim id userId, requestId, fault, later⟩ (.error err) →
    ∀ d e, Reachable (registry atlas) C (.initial s₀) d → StepOf (registry atlas) C i d e →
      Reachable (registry atlas) C e c → e.db.shown = d.db.shown
  only : ∀ p, c.procs i = .running ⟨.withdrawClaim id userId, requestId, fault, later⟩ p →
    ∀ d, StepOf (registry atlas) C i c d → d.db.shown ≠ c.db.shown →
      Withdraws id userId requestId c.db d.db

variable {s₀ : Db} {c d e : Config ℕ Db Call (Except AppError Response) Query}

/-- **Withdrawals are truthful**, in every interleaving of the registry in which nobody is
overtaken. -/
theorem withdrawals_truthful (atlas : Atlas) (hrest : ∀ id, (s₀.claims.slot id).lock = none)
    (h : Reachable (registry atlas) Unraced (.initial s₀) c) (i : ℕ) (id userId : Uuid)
    (requestId : Option Uuid) (fault later : Option ℕ) :
    TruthfulWithdrawal atlas Unraced s₀ i id userId requestId fault later c := by
  have hprog (i : ℕ) (call : Call) :
      Truthful Query.publishes call.Does (answeredWell call) False (serve atlas call).run
        (free : Assertion (decisionsContract atlas Unraced) i) :=
    truthful_serve_withdrawing call
  have hinv : s₀.claims.Ordered Final := by
    intro id j v hv
    rw [hrest id] at hv
    cases hv
  have hfree : ∀ i, (free : Assertion (decisionsContract atlas Unraced) i).holds s₀ := by
    intro i id v hv
    rw [hrest id] at hv
    cases hv
  refine ⟨fun r hserved => ?_, fun err hserved d e hd hstep he => ?_, fun p hi d hstep hne => ?_⟩
  · obtain ⟨done, hpost, hdone⟩ := (decisionsContract atlas Unraced).answered hprog hinv hfree h hserved
    obtain ⟨d, e, hd, hpub, he, hdoes⟩ := hdone (hpost id userId rfl)
    exact ⟨d, e, hd, hpub.stepOf, he, hdoes id userId rfl⟩
  · by_contra hne
    obtain ⟨call, p, -, hpub⟩ := publishes_of_shown hstep hne
    obtain rfl := hpub.served he hserved
    obtain ⟨-, hpost⟩ := (decisionsContract atlas Unraced).published hprog hinv hfree hd hpub
    exact hpost c _ he hserved id userId rfl trivial
  · obtain ⟨call, p', hi', hpub⟩ := publishes_of_shown hstep hne
    rw [hi] at hi'
    cases hi'
    obtain ⟨hdoes, -⟩ := (decisionsContract atlas Unraced).published hprog hinv hfree h hpub
    exact hdoes id userId rfl

/-- A pending claim is found by every update that withdraws one. -/
def Query.findsPending (i : ℕ) (db : Db) {β : Type} : Query β → Bool
  | .claim _ (.decide id _ _ _ _) => (db.claims.row i id).any fun claim => claim.status = .pending
  | _ => true

theorem unraced_of_check {β : Type} (i : ℕ) (q : Query β) (db : Db)
    (h : q.findsPending i db = true) : Unraced i q db := by
  cases q with
  | claim m q =>
    cases q with
    | insert => trivial
    | decide id status decidedBy note now =>
      intro _
      obtain ⟨claim, hrow, hpending⟩ := (Option.any_eq_true _ _).mp h
      exact ⟨claim, hrow, of_decide_eq_true hpending⟩
  | license | addVersion | importRun | listing | trade | area | job | grantRole | recordCheck
  | record | commit | rollback => trivial

/-- Account `9` withdraws its claim. -/
theorem withdrawals_truthful_alone :
    ∃ c d e, Reachable (registry .plain) Unraced (.initial .oneClaim) c ∧
      c.Served 0 ⟨.withdrawClaim 5 9, none, none, none⟩ (.ok .done) ∧
      StepOf (registry .plain) Unraced 0 d e ∧ Withdraws 5 9 none d.db e.db := by
  have hrun := exists_of_exec ((registry .plain).guarded fun i q db => q.findsPending i db)
    (.arrive 0 ⟨.withdrawClaim 5 9, none, none, none⟩ :: List.replicate 5 (.run 0))
    (.initial .oneClaim)
    (fun c => decide (c.Served 0 ⟨.withdrawClaim 5 9, none, none, none⟩ (.ok .done)))
    (by decide +kernel)
  obtain ⟨c, hc, hserved⟩ := hrun
  rw [decide_eq_true_eq] at hserved
  have hreach : Reachable (registry .plain) Unraced (.initial .oneClaim) c :=
    reachable_of_guarded unraced_of_check hc
  obtain ⟨d, e, -, hstep, -, hwithdraws⟩ :=
    (withdrawals_truthful .plain Db.oneClaim_unheld.claims hreach 0 5 9 none none none).ok _ hserved
  exact ⟨c, d, e, hreach, hserved, hstep, hwithdraws⟩

/-- An administrator approves the claim between the two looks of a withdrawal, which answers that
the claim is withdrawn all the same. -/
theorem not_always_withdrawn :
    ¬ ∀ c, Reachable (registry .plain) anyQuery (.initial .oneClaim) c →
      TruthfulWithdrawal .plain anyQuery .oneClaim 0 5 9 none none none c := by
  have hrun := exists_of_exec (registry .plain)
    ([.arrive 0 ⟨.withdrawClaim 5 9, none, none, none⟩, .run 0,
      .arrive 1 ⟨.decideClaim 5 true 3 none, none, none, none⟩] ++ List.replicate 14 (.run 1) ++
      List.replicate 4 (.run 0))
    (.initial .oneClaim)
    (fun c => decide (c.Served 0 ⟨.withdrawClaim 5 9, none, none, none⟩ (.ok .done)) &&
      decide ((c.db.claims.slot 5).committed.map (fun claim => claim.status) = some .approved))
    (by decide +kernel)
  intro htruthful
  obtain ⟨c, hc, hserved⟩ := hrun
  rw [Bool.and_eq_true, decide_eq_true_eq, decide_eq_true_eq] at hserved
  obtain ⟨hserved, hstatus⟩ := hserved
  obtain ⟨claim, hclaim, happroved⟩ := Option.map_eq_some_iff.mp hstatus
  obtain ⟨d, e, hd, hstep, he, -, ⟨claim', hclaim', hwithdrawn⟩, -⟩ := (htruthful c hc).ok _ hserved
  -- what one step has withdrawn would be withdrawn for good
  have hinv : ∀ {c d : Config ℕ Db Call (Except AppError Response) Query},
      c.db.claims.Ordered Final → Reachable (registry .plain) anyQuery c d →
        d.db.claims.Ordered Final ∧ Table.Grown Final c.db.claims d.db.claims := by
    intro c d hs h
    refine rel_of_run (fun s => s.claims.Ordered Final)
      (fun s s' => Table.Grown Final s.claims s'.claims) (fun s id => Final.refl _)
      (fun s t u hst htu id => Final.trans _ _ _ (hst id) (htu id)) (fun q i s b s' hs _ hq => ?_)
      (fun s n hs => ⟨hs, fun id => Final.refl _⟩) hs h
    have hrun : q.run .plain i s = some (b, s') := hq
    exact ⟨(decisions_step hs hrun).1, (decisions_step hs hrun).2.final⟩
  have hstart : Db.oneClaim.claims.Ordered Final := by
    intro id j v hv
    rw [Db.oneClaim_unheld.claims id] at hv
    cases hv
  have hfinal := (hinv (hinv hstart (hd.tail hstep.step)).1 he).2 5 claim' hclaim'
  obtain ⟨claim'', hclaim'', -, -, hsame⟩ := hfinal
  rw [hclaim] at hclaim''
  cases hclaim''
  rw [hsame (by rw [hwithdrawn]; nofun), hwithdrawn] at happroved
  cases happroved

end Marketplace.Registry
