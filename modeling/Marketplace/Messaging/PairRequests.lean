import Marketplace.Messaging.Pairs

/-!
# The conversation that a request answers with

The requests, seen by the pairs: one that starts a conversation inserts it and adds the two
participants, or finds it published, and the others create nothing.
-/

namespace Marketplace

namespace Messaging

open ReadCommitted

variable {env : Env} {i : ℕ} {db db' : Db} {k u : Uuid} {pair : Uuid × Uuid} {β : Type}

/-! ### The contract -/

/-- What a step of process `i` does to the pairs. -/
structure PairStep (i : ℕ) (db db' : Db) : Prop where
  /-- Conversations. -/
  conversations : db.conversations.Moves i db'.conversations
  /-- Participants. -/
  participants : db.participants.Moves i db'.participants
  /-- Published conversations keep their pairs. -/
  kept : Table.Grown (Lasts ConversationRow.pair) db.conversations db'.conversations

/-- The pairs of a database. -/
abbrev Db.pairs (db : Db) : Prop := PairInv db.conversations db.participants

theorem pairStep_of_run {q : Query β} {b : β} (h : db.pairs) (hq : q.startsEmpty)
    (hr : q.run i db = some (b, db')) : PairStep i db db' :=
  ⟨(Query.effects hq hr).conversations.moves, participants_moves hr, (paired_of_run h.paired hq hr).2⟩

/-- The contract of the pairs. -/
def pairContract (env : Env) : Contract (messagingService env) anyQuery where
  inv := Db.pairs
  guar := PairStep
  inv_tick _ h := h
  rollback h _ hr := by
    rw [messagingService_run] at hr
    have hstep := pairStep_of_run (q := .rollback) h trivial hr
    cases hr
    exact ⟨h.rollback, hstep⟩

/-- Process `i` is about to publish no new conversation. -/
def bare (env : Env) (i : ℕ) : Assertion (pairContract env) i where
  holds db := Bare i db.conversations
  stable hne _ _ hg h k c hdraft := by
    have hold := (Table.draft_iff_of_other hg.conversations hne).mp hdraft
    rw [(hg.conversations k).eq_of_held hold hne.symm]
    exact h k c hold
  tick _ _ h := h

/-- Conversation `k` is new, and the only new one of process `i`. -/
def newborn (env : Env) (i : ℕ) (k : Uuid) (pair : Uuid × Uuid) :
    Assertion (pairContract env) i where
  holds db := Newborn i k pair db.conversations
  stable hne _ _ hg h := by
    have heq : ∀ {l c}, Table.Draft _ i l c → _ := fun hold =>
      (hg.conversations _).eq_of_held hold hne.symm
    obtain ⟨c, hdraft, hpair⟩ := h.draft
    refine ⟨⟨c, (Table.draft_iff_of_other hg.conversations hne).mpr hdraft, hpair⟩, ?_, ?_⟩
    · rw [heq hdraft]
      exact h.fresh
    · intro l c hdraft hnone
      have hold := (Table.draft_iff_of_other hg.conversations hne).mp hdraft
      rw [heq hold] at hnone
      exact h.sole l c hold hnone
  tick _ _ h := ⟨h.draft, h.fresh, h.sole⟩

/-- Process `i` is about to add a participant. -/
def joined (env : Env) (i : ℕ) (k u : Uuid) : Assertion (pairContract env) i where
  holds db := ∃ p, db.participants.Draft i (k, u) p
  stable hne _ _ hg h := h.imp fun _ => (Table.draft_iff_of_other hg.participants hne).mpr
  tick _ _ h := h

/-- Conversation `k` is the published one of a pair. -/
def known (env : Env) (i : ℕ) (k : Uuid) (pair : Uuid × Uuid) : Assertion (pairContract env) i where
  holds db := db.pair k = some pair
  stable _ _ _ hg h := pair_of_grown h hg.kept
  tick _ _ h := h

/-- **Conversation `k` is the one of a pair once process `i` has committed**, which it may. -/
def ready (env : Env) (i : ℕ) (k : Uuid) (pair : Uuid × Uuid) : Assertion (pairContract env) i where
  holds db := Whole i db.conversations db.participants ∧
    (db.pair k = some pair ∨ ∃ c, db.conversations.Draft i k c ∧ c.pair = pair)
  stable hne _ _ hg h := by
    refine ⟨fun l c hdraft hnone u hu => ?_, ?_⟩
    · have hold := (Table.draft_iff_of_other hg.conversations hne).mp hdraft
      rw [(hg.conversations l).eq_of_held hold hne.symm] at hnone
      exact (h.1 l c hold hnone u hu).imp fun _ =>
        (Table.draft_iff_of_other hg.participants hne).mpr
    · exact h.2.imp (fun h => pair_of_grown h hg.kept) fun ⟨c, hdraft, hpair⟩ =>
        ⟨c, (Table.draft_iff_of_other hg.conversations hne).mpr hdraft, hpair⟩
  tick _ _ h := h

/-! ### Queries -/

/-- A query that is plain keeps the pairs, and brings no new conversation. -/
theorem bare_of_plain {q : Query β} (hq : q.plain i) : (pairContract env).Keeps (bare env i) q := by
  intro db b db' hinv h _ hr
  rw [messagingService_run] at hr
  have hstep := pairStep_of_run hinv hq.orderly.starts hr
  have hbare : Bare i db.conversations := h
  cases q with
  | createConversation | addParticipant => exact hq.elim
  | insertMessage | softDelete | block | unblock =>
    obtain ⟨p, -, he⟩ := Option.map_eq_some_iff.mp hr
    cases he
    exact ⟨hinv, hstep, hbare⟩
  | nextSeq k now =>
    obtain ⟨⟨b, t⟩, hp, he⟩ := Option.map_eq_some_iff.mp hr
    cases he
    obtain ⟨hinv', hbare'⟩ := PairInv.next hinv hp
    exact ⟨hinv', hstep, hbare' hbare⟩
  | markRead k u upToSeq =>
    obtain ⟨⟨b, t⟩, hp, he⟩ := Option.map_eq_some_iff.mp hr
    cases he
    exact ⟨hinv.mark hp, hstep, hbare⟩
  | commit =>
    cases hr
    exact ⟨hinv.commit hbare.whole, hstep, fun k c hdraft =>
      absurd hdraft Table.not_draft_of_commit⟩
  | rollback =>
    cases hr
    exact ⟨hinv.rollback, hstep, fun k c hdraft => absurd hdraft Table.not_draft_of_rollback⟩

/-- A conversation is created, and is then the only new one of its process. -/
theorem newborn_of_create {row : ConversationRow} {b : Bool} (hlt : row.dmLo < row.dmHi)
    (hempty : row.lastSeq = 0) (hinv : db.pairs) (hbare : Bare i db.conversations)
    (hr : (Query.createConversation k row).run i db = some (b, db')) :
    db'.pairs ∧ PairStep i db db' ∧
      if b then Newborn i k row.pair db'.conversations else Bare i db'.conversations := by
  have hstep := pairStep_of_run (q := .createConversation k row) hinv hempty hr
  obtain ⟨⟨b', t⟩, hp, he⟩ := Option.map_eq_some_iff.mp hr
  cases he
  obtain ⟨hinv', hnew⟩ := PairInv.create hinv hlt hp
  exact ⟨hinv', hstep, hnew hbare⟩

/-- A participant joins a new conversation. -/
theorem joined_of_add {q : Query Bool} {role : ParticipantRole} (hq : q = .addParticipant k u role)
    {b : Bool} (hinv : db.pairs) (hnew : Newborn i k pair db.conversations)
    (hu : u = pair.1 ∨ u = pair.2) (hr : q.run i db = some (b, db')) :
    db'.pairs ∧ PairStep i db db' ∧ Newborn i k pair db'.conversations ∧
      (∃ p, db'.participants.Draft i (k, u) p) ∧
      ∀ u', (∃ p, db.participants.Draft i (k, u') p) → ∃ p, db'.participants.Draft i (k, u') p := by
  subst hq
  have hstep := pairStep_of_run (q := .addParticipant k u role) hinv trivial hr
  obtain ⟨⟨b', t⟩, hp, he⟩ := Option.map_eq_some_iff.mp hr
  cases he
  obtain ⟨hinv', hjoined, hkept⟩ := PairInv.add hinv hnew hu hp
  exact ⟨hinv', hstep, hnew, hjoined, hkept⟩

/-- The conversation that a process finds for a pair. -/
theorem conversationOf_cases {conversation : Conversation}
    (h : conversationOf pair i db = some conversation) :
    ∃ c, db.conversations.row i conversation.id = some c ∧ c.pair = pair := by
  obtain ⟨k, hk, hshown⟩ := Option.bind_eq_some_iff.mp h
  obtain ⟨c, hc, hmatch⟩ := Table.mem_scan.mp (List.mem_of_head? hk)
  rw [hc] at hshown
  cases hshown
  rw [Bool.and_eq_true, decide_eq_true_eq, decide_eq_true_eq] at hmatch
  exact ⟨c, hc, Prod.ext hmatch.1 hmatch.2⟩

/-- A process with no new conversation finds a published one. -/
theorem known_of_found (hinv : db.pairs) (hbare : Bare i db.conversations)
    {conversation : Conversation} (h : conversationOf pair i db = some conversation) :
    db.pair conversation.id = some pair := by
  obtain ⟨c, hrow, rfl⟩ := conversationOf_cases h
  rcases hc : (db.conversations.slot conversation.id).committed with _ | c₀
  · exact absurd hc (hbare _ c (Table.draft_of_row hrow hc))
  · obtain ⟨c', hc', hpair⟩ := hinv.paired.le_row Lasts.refl i conversation.id c₀ hc
    rw [hrow] at hc'
    cases hc'
    rw [Db.pair, hc, hpair]
    rfl

/-- A process that has created the conversation of a pair finds that one. -/
theorem newborn_of_found (hinv : db.pairs) (hnew : Newborn i k pair db.conversations)
    {conversation : Conversation} (h : conversationOf pair i db = some conversation) :
    conversation.id = k := by
  obtain ⟨c, hrow, rfl⟩ := conversationOf_cases h
  obtain ⟨c', hdraft, hpair⟩ := hnew.draft
  exact hinv.unique.row hrow rfl hdraft.row (congrArg some hpair)

/-! ### Programs -/

/-- The pair that a request to start a conversation is for: whoever asks, and whoever the listing
or the posting belonged to when it was looked at. -/
def Addresses (env : Env) (i : ℕ) : Request → Uuid → Uuid → Prop
  | .startWithContractor initiator contractorId, a, b => a = initiator ∧
    ∃ now target, env.messagingTarget i now contractorId = some target ∧
      target.claimedByUserId = some b
  | .startWithJob initiator jobId, a, b => a = initiator ∧
    ∃ now, env.openJobPoster i now jobId = some b
  | _, _, _ => False

/-- What is known before a conversation is answered with: it is ready to be published. -/
def starting (env : Env) (i : ℕ) (r : Request) :
    Except AppError Response → Assertion (pairContract env) i
  | .ok (.conversation conversation) => .ex fun p : Uuid × Uuid =>
    (Assertion.fact (Addresses env i r p.1 p.2)).and (ready env i conversation.id (ordered p.1 p.2))
  | .ok _ => .fact False
  | .error _ => .any

/-- What is known of a conversation that was answered with: it is published. -/
def started (env : Env) (i : ℕ) (r : Request) :
    Except AppError Response → Assertion (pairContract env) i
  | .ok (.conversation conversation) => .ex fun p : Uuid × Uuid =>
    (Assertion.fact (Addresses env i r p.1 p.2)).and (known env i conversation.id (ordered p.1 p.2))
  | _ => .any

/-- A transaction commits what is ready. -/
theorem safe_starting {r : Request} {body : Instant → Serving Response}
    (h : ∀ now, Safe (starting env i r) (body now).run (bare env i)) :
    Safe (started env i r) (inTransaction body).run (bare env i) := by
  refine Safe.transaction (starting env i r) (Safe.look_keep h) ?_ ?_
  · intro a db b db' hinv hready _ hr
    rw [messagingService_run] at hr
    have hstep := pairStep_of_run (q := .commit) hinv trivial hr
    cases hr
    cases a with
    | conversation conversation =>
      obtain ⟨p, hp, hwhole, hready⟩ := hready
      refine ⟨hinv.commit hwhole, hstep, p, hp, ?_⟩
      rcases hready with hknown | ⟨c, hdraft, hpair⟩
      · exact pair_of_grown hknown hstep.kept
      · have hslot : (db.commit i).conversations.slot conversation.id = { committed := some c } :=
          Slot.commit_of_held hdraft
        show (db.commit i).pair conversation.id = _
        rw [Db.pair, hslot, ← hpair]
        rfl
    | done | message | page | unblocked => exact hready.elim
  · intro e db b db' hinv _ _ hr
    rw [messagingService_run] at hr
    have hstep := pairStep_of_run (q := .rollback) hinv trivial hr
    cases hr
    exact ⟨hinv.rollback, hstep, trivial⟩

/-- A request that fails knows nothing. -/
theorem safe_refused {r : Request} {e : AppError} {P : Assertion (pairContract env) i} :
    Safe (starting env i r) (throw e : Serving Response).run P :=
  fun _ _ _ => trivial

/-- The two accounts of a pair are the two ends of it, in order. -/
theorem ordered_ends {a b : Uuid} (h : u = a ∨ u = b) :
    u = (ordered a b).1 ∨ u = (ordered a b).2 := by
  rw [ordered]
  split
  · exact h
  · exact h.symm

/-- **The two accounts join the conversation that was created for them.** -/
theorem ready_join {initiator recipient : Uuid} {conversation : Conversation}
    (hid : conversation.id = k) :
    Safe (Assertion.onOk
        (fun conversation => ready env i conversation.id (ordered initiator recipient))
        fun _ => .any)
      (do
        let _ ← Action.query (.addParticipant conversation.id initiator .initiator)
        let _ ← Action.query (.addParticipant conversation.id recipient .recipient)
        pure conversation : Serving Conversation).run
      (newborn env i k (ordered initiator recipient)) := by
  subst hid
  let born := newborn env i conversation.id (ordered initiator recipient)
  refine Safe.query_andThen (fun _ => born.and (joined env i conversation.id initiator))
    (fun db b db' hinv h _ hr => ?_) fun _ => ?_
  · rw [messagingService_run] at hr
    obtain ⟨hinv', hstep, hnew, hjoined, -⟩ :=
      joined_of_add rfl hinv h (ordered_ends (Or.inl rfl)) hr
    exact ⟨hinv', hstep, hnew, hjoined⟩
  refine Safe.query_andThen (fun _ => born.and
      ((joined env i conversation.id initiator).and (joined env i conversation.id recipient)))
    (fun db b db' hinv h _ hr => ?_) fun _ => ?_
  · rw [messagingService_run] at hr
    obtain ⟨hinv', hstep, hnew, hjoined, hkept⟩ :=
      joined_of_add rfl hinv h.1 (ordered_ends (Or.inr rfl)) hr
    exact ⟨hinv', hstep, hnew, hkept _ h.2, hjoined⟩
  · rintro db - ⟨hnew, ⟨p, hfirst⟩, p', hsecond⟩
    have hnew : Newborn i conversation.id (ordered initiator recipient) db.conversations := hnew
    refine ⟨?_, Or.inr hnew.draft⟩
    -- which of the two joined first depends on the order of the pair
    by_cases hlt : initiator < recipient
    · rw [ordered, if_pos hlt] at hnew
      exact hnew.whole hfirst hsecond
    · rw [ordered, if_neg hlt] at hnew
      exact hnew.whole hsecond hfirst

/-- **The conversation of a pair is found, or created with its participants.** -/
theorem ready_findOrCreateDm {initiator recipient : Uuid} {contractorId jobId : Option Uuid}
    {now : Instant} :
    Safe (Assertion.onOk
        (fun conversation => ready env i conversation.id (ordered initiator recipient))
        fun _ => .any)
      (findOrCreateDm i initiator recipient contractorId jobId now).run (bare env i) := by
  rw [findOrCreateDm]
  split
  · exact fun _ _ _ => trivial
  rename_i hne
  refine Safe.query_andThen
    (fun inserted =>
      if inserted then newborn env i i (ordered initiator recipient) else bare env i)
    (fun db b db' hinv hbare _ hr => ?_) fun inserted => ?_
  · rw [messagingService_run] at hr
    obtain ⟨hinv', hstep, hnew⟩ := newborn_of_create (ordered_lt hne) rfl hinv hbare hr
    refine ⟨hinv', hstep, ?_⟩
    cases b with
    | true => exact hnew
    | false => exact hnew
  cases inserted with
  | false =>
    refine Safe.look_andThen (fun found => (bare env i).and
        (found.elim .any fun conversation =>
          known env i conversation.id (ordered initiator recipient)))
      (fun db hinv hbare => ⟨hbare, ?_⟩) fun found => ?_
    · cases hfound : conversationOf (ordered initiator recipient) i db with
      | none => trivial
      | some conversation => exact known_of_found hinv hbare hfound
    · cases found with
      | none => exact fun _ _ _ => trivial
      | some conversation => exact fun db _ h => ⟨Bare.whole h.1, Or.inl h.2⟩
  | true =>
    refine Safe.look_andThen (fun found => (newborn env i i (ordered initiator recipient)).and
        (.fact (∀ conversation, found = some conversation → conversation.id = i)))
      (fun db hinv hnew => ⟨hnew, fun conversation => newborn_of_found hinv hnew⟩) fun found => ?_
    cases found with
    | none => exact fun _ _ _ => trivial
    | some conversation =>
      refine Safe.mono (P := (Assertion.fact (conversation.id = i)).and
          (newborn env i i (ordered initiator recipient)))
        (Safe.of_fact ready_join) fun db _ h => ⟨h.2 conversation rfl, h.1⟩

/-- Starting a conversation, once the gates are passed. -/
theorem ready_start {r : Request} {initiator recipient : Uuid} {contractorId jobId : Option Uuid}
    {now : Instant} (hr : Addresses env i r initiator recipient) (blocked : Bool) :
    Safe (starting env i r) (if blocked then throw .forbidden else do
      let conversation ← findOrCreateDm i initiator recipient contractorId jobId now
      pure (Response.conversation conversation) : Serving Response).run (bare env i) := by
  cases blocked with
  | true => exact safe_refused
  | false =>
    refine Safe.andThen _ ready_findOrCreateDm fun conversation => ?_
    exact fun db _ h => ⟨(initiator, recipient), hr, h⟩

theorem ready_startWithContractor {initiator contractorId : Uuid} :
    Safe (started env i (.startWithContractor initiator contractorId))
      (startWithContractor env i initiator contractorId).run (bare env i) := by
  refine safe_starting fun now => ?_
  refine Safe.look_andThen
    (fun target => (Assertion.fact (∃ now, env.messagingTarget i now contractorId = target)).and
      (bare env i)) (fun db _ h => ⟨⟨db.clock, rfl⟩, h⟩) fun target => Safe.of_fact fun hlook => ?_
  obtain ⟨then_, hlook⟩ := hlook
  cases target with
  | none => exact safe_refused
  | some target =>
    dsimp only
    rcases howner : target.claimedByUserId with _ | owner
    · exact safe_refused
    · dsimp only
      split
      · exact safe_refused
      split
      · exact safe_refused
      · have haddresses : Addresses env i (.startWithContractor initiator contractorId) initiator
            owner := ⟨rfl, then_, target, hlook, howner⟩
        exact Safe.look_keep fun blocked => ready_start haddresses blocked

theorem ready_startWithJob {initiator jobId : Uuid} :
    Safe (started env i (.startWithJob initiator jobId)) (startWithJob env i initiator jobId).run
      (bare env i) := by
  refine safe_starting fun now => Safe.look_keep fun contractor => ?_
  cases contractor with
  | none => exact safe_refused
  | some contractorId =>
    refine Safe.look_andThen
      (fun poster => (Assertion.fact (∃ now, env.openJobPoster i now jobId = poster)).and
        (bare env i)) (fun db _ h => ⟨⟨db.clock, rfl⟩, h⟩) fun poster => Safe.of_fact fun hlook => ?_
    cases poster with
    | none => exact safe_refused
    | some poster =>
      dsimp only
      split
      · exact safe_refused
      · have haddresses : Addresses env i (.startWithJob initiator jobId) initiator poster :=
          ⟨rfl, hlook⟩
        exact Safe.look_keep fun blocked => ready_start haddresses blocked

/-- What a request is known to have answered with. -/
def answered (env : Env) (i : ℕ) (r : Request) (a : Except AppError Response) :
    Assertion (pairContract env) i :=
  if r.starts then started env i r a else .any

theorem ready_serve (r : Request) :
    Safe (answered env i r) (serve env i r).run (bare env i) := by
  cases hr : r.starts with
  | false =>
    have hkeep : (serve env i r).run.Each fun {_} q => (pairContract env).Keeps (bare env i) q :=
      (each_serve_plain hr).mono fun _ hq => bare_of_plain hq
    refine (Safe.keep hkeep).conseq (fun _ _ h => h) fun a db _ _ => ?_
    rw [answered, hr]
    trivial
  | true =>
    have hpost : answered env i r = started env i r := by
      funext a
      exact if_pos hr
    rw [hpost]
    cases r with
    | startWithContractor initiator contractorId => exact ready_startWithContractor
    | startWithJob initiator jobId => exact ready_startWithJob
    | send | poll | deleteMessage | markRead | block | unblock => cases hr

/-! ### Whole runs -/

section Runs

variable {c : Config ℕ Db Request (Except AppError Response) Query}

/-- **One conversation for each pair.** In every configuration that is reached, whichever requests
have failed or died on the way, two published conversations have different pairs, the
participants of a published conversation are the two accounts of its pair, and whoever was
answered with a conversation was answered with the published one of the pair it asked for. -/
theorem one_conversation (hc : Reachable (messagingService env) anyQuery (.initial {}) c) :
    (∀ k k' row row', (c.db.conversations.slot k).committed = some row →
      (c.db.conversations.slot k').committed = some row' → row.pair = row'.pair → k = k') ∧
    (∀ k row, (c.db.conversations.slot k).committed = some row → row.dmLo < row.dmHi ∧
      ∀ u, (c.db.participants.slot (k, u)).committed.isSome = true ↔
        u = row.dmLo ∨ u = row.dmHi) ∧
    ∀ i r conversation, r.starts = true → c.Served i r (.ok (.conversation conversation)) →
      ∃ a b row, Addresses env i r a b ∧
        (c.db.conversations.slot conversation.id).committed = some row ∧
          row.pair = ordered a b := by
  have hempty : Db.pairs {} := PairInv.empty
  have hbare : ∀ i, (bare env i).holds {} := fun i k c hdraft => nomatch hdraft
  obtain ⟨hinv, htracked⟩ := (pairContract env).of_reachable (fun _ r => ready_serve r) hempty hbare hc
  have hinv : c.db.pairs := hinv
  refine ⟨fun k k' row row' hrow hrow' hpair => ?_, fun k row hrow => ⟨?_, fun u => ⟨?_, ?_⟩⟩,
    fun i r conversation hr hserved => ?_⟩
  · exact hinv.unique.published ⟨row, hrow, rfl⟩ ⟨row', hrow', congrArg some hpair.symm⟩
  · exact Table.Holds.committed (P := fun _ c => c.dmLo < c.dmHi) hinv.distinct hrow
  · intro hsome
    obtain ⟨p, hp⟩ := Option.isSome_iff_exists.mp hsome
    obtain ⟨row', hrow', hu⟩ := hinv.only hp
    rw [hrow] at hrow'
    cases hrow'
    exact hu
  · exact hinv.complete hrow
  · have hanswered := htracked.served hinv hserved
    rw [answered, if_pos hr] at hanswered
    obtain ⟨⟨a, b⟩, haddresses, hpair⟩ := hanswered
    obtain ⟨row, hrow, hp⟩ := Option.map_eq_some_iff.mp hpair
    exact ⟨a, b, row, haddresses, hrow, hp⟩

/-- A marketplace in which every account has a listing under its own number. -/
def bothOwn : Env where
  messagingTarget _ _ contractorId := some ⟨some contractorId, true⟩
  claimedBy _ _ _ := none
  openJobPoster _ _ _ := none

/-- Accounts `0` and `1` write to each other at the same moment: the second insert waits for the
first transaction, and then finds its conversation. -/
theorem one_conversation_both :
    ∃ (c : Config ℕ Db Request (Except AppError Response) Query) (first second : Conversation),
      Reachable (messagingService bothOwn) anyQuery (.initial {}) c ∧
      c.Served 0 (.startWithContractor 0 1) (.ok (.conversation first)) ∧
      c.Served 1 (.startWithContractor 1 0) (.ok (.conversation second)) ∧ first.id = second.id := by
  let answer : Conversation := ⟨0, some 1, 0, none, 0⟩
  have hrun := exists_of_exec (messagingService bothOwn)
    (.arrive 0 (.startWithContractor 0 1) :: List.replicate 4 (.run 0) ++
      .arrive 1 (.startWithContractor 1 0) :: List.replicate 3 (.run 1) ++
      List.replicate 4 (.run 0) ++ List.replicate 3 (.run 1))
    (.initial {})
    (fun c => decide (c.Served 0 (.startWithContractor 0 1) (.ok (.conversation answer))) &&
      decide (c.Served 1 (.startWithContractor 1 0) (.ok (.conversation answer))))
    (by decide +kernel)
  obtain ⟨c, hc, hserved⟩ := hrun
  rw [Bool.and_eq_true, decide_eq_true_eq, decide_eq_true_eq] at hserved
  obtain ⟨hsole, -, hanswers⟩ := one_conversation hc
  have hpair : ∀ i a b row, Addresses bothOwn i (.startWithContractor a b) row.1 row.2 →
      row = (a, b) := by
    rintro i a b ⟨x, y⟩ ⟨rfl, now, target, htarget, howner⟩
    cases htarget
    cases howner
    rfl
  obtain ⟨a, b, row, haddresses, hrow, hab⟩ := hanswers 0 _ _ rfl hserved.1
  obtain ⟨a', b', row', haddresses', hrow', hab'⟩ := hanswers 1 _ _ rfl hserved.2
  cases hpair _ _ _ (a, b) haddresses
  cases hpair _ _ _ (a', b') haddresses'
  exact ⟨c, answer, answer, hc, hserved.1, hserved.2,
    hsole _ _ row row' hrow hrow' (hab.trans ((ordered_comm 0 1).trans hab'.symm))⟩

end Runs

end Messaging

end Marketplace
