import Marketplace.Messaging.PairRequests
import Marketplace.Messaging.Polling
import Marketplace.ReadCommitted.Authorship

/-!
# Who writes in a conversation, and who reads it

A conversation is between two accounts (`Marketplace.Messaging.Db.Joined`). Who sends a message into
it, or removes one, is found out by looking for the row of a participant, some statements before
anything is written; since nobody leaves a conversation, that is enough. What is published of a
message is therefore written by its sender, who is one of the two, and so is who is answered with
messages.
-/

namespace Marketplace

namespace Messaging

open ReadCommitted

variable {env : Env} {i : ℕ} {db db' : Db} {α β : Type} {k l u : Uuid} {m : MessageRow}

/-! ### The two accounts of a conversation -/

/-- Account `u` is one of the two accounts of a published conversation. -/
def Db.Joined (k u : Uuid) (db : Db) : Prop :=
  ∃ row, (db.conversations.slot k).committed = some row ∧ row.Joins u

/-- The request is one that asks whether the caller is a participant. -/
def Request.asks : Request → Bool
  | .startWithContractor _ _ | .startWithJob _ _ => false
  | _ => true

/-- A query that makes nobody a participant. -/
def Query.joinsNobody : {β : Type} → Query β → Prop
  | _, .addParticipant _ _ _ => False
  | _, _ => True

/-- A query that makes nobody a participant leaves who there is. -/
theorem reads_participants {q : Query β} {b : β} (hq : q.joinsNobody)
    (hr : q.run i db = some (b, db')) (k : Uuid × Uuid) :
    ((db'.participants.slot k).visible i).isSome = ((db.participants.slot k).visible i).isSome ∨
      db'.participants.slot k = (db.participants.slot k).rollback i := by
  have heffect : db.participants.Effect (fun _ o r => o.isSome = true) i db'.participants := by
    cases q with
    | addParticipant => exact hq.elim
    | createConversation | nextSeq | insertMessage | softDelete | block | unblock =>
      obtain ⟨p, -, he⟩ := Option.map_eq_some_iff.mp hr
      cases he
      exact .keep _
    | markRead =>
      obtain ⟨p, hp, he⟩ := Option.map_eq_some_iff.mp hr
      cases he
      refine Table.effect_of_modify hp fun r hr => ?_
      obtain ⟨r₀, u, hrow, -⟩ := Table.updating_cases hr
      rw [hrow]
      rfl
    | commit =>
      cases hr
      exact .commit _
    | rollback =>
      cases hr
      exact .rollback _
  exact heffect.reads fun o r ho => ho.symm

section Runs

variable {c d : Config ℕ Db Request (Except AppError Response) Query}

theorem pairs_of_reachable (hc : Reachable (messagingService env) anyQuery (.initial {}) c) :
    c.db.pairs := by
  have hempty : Db.pairs {} := PairInv.empty
  have hbare : ∀ i, (bare env i).holds {} := fun i k c hdraft => nomatch hdraft
  exact ((pairContract env).of_reachable (fun _ r => ready_serve r) hempty hbare hc).1

/-- **Whoever finds out that it is a participant is one of the two accounts.** -/
theorem joined_of_row (hc : Reachable (messagingService env) anyQuery (.initial {}) c) {r : Request}
    {p : Prog ℕ Db Query (Except AppError Response)} (hi : c.procs i = .running r p)
    (hasks : r.asks = true) (hrow : (c.db.participants.row i (k, u)).isSome = true) :
    c.db.Joined k u := by
  have hauthority : Authority (messagingService env) anyQuery {}
      (fun db => db.participants.slot (k, u)) Option.isSome fun r _ => r.asks = false := by
    refine .of_guarded (J := fun _ _ _ => True) (φ := fun _ {_} q => q.joinsNobody) rfl
      (fun q i s b s' hr => participants_moves hr (k, u)) (fun i s s' hr => by cases hr; rfl)
      (fun s n => rfl) (fun i r => ?_) (fun _ _ => trivial) (fun _ _ h => h)
      fun q i r s b s' hq hr => reads_participants hq hr (k, u)
    cases hr : r.asks with
    | false => exact Or.inr fun _ => rfl
    | true =>
      have hstarts : r.starts = false := by cases r <;> first | rfl | cases hr
      refine Or.inl (Prog.guarded_of_each ((each_serve_plain hstarts).mono fun q hq => ?_))
      cases q with
      | addParticipant => exact hq
      | createConversation => exact hq.elim
      | nextSeq | insertMessage | softDelete | markRead | block | unblock | commit | rollback =>
        trivial
  rcases hauthority.rightful hc i with hfaithful | ⟨r', p', hi', hmay⟩
  · have hpublished : (c.db.participants.slot (k, u)).committed.isSome = true :=
      hfaithful.visible.symm.trans hrow
    obtain ⟨p, hp⟩ := Option.isSome_iff_exists.mp hpublished
    exact (pairs_of_reachable hc).only hp
  · rw [hi] at hi'
    cases hi'
    rw [hasks] at hmay
    cases hmay

/-- Nobody leaves a conversation. -/
theorem joined_of_step (hc : Reachable (messagingService env) anyQuery (.initial {}) c)
    (hstep : Step (messagingService env) anyQuery c d) (h : c.db.Joined k u) : d.db.Joined k u := by
  obtain ⟨row, hrow, hu⟩ := h
  have hgrown := rel_beside (φ := fun i {_} q => q.orderly i) (fun db => db.Paired)
    (fun db db' => Table.Grown (Lasts ConversationRow.pair) db.conversations db'.conversations)
    (fun _ _ => Lasts.refl _) (fun _ _ _ h h' k => Lasts.trans _ _ _ (h k) (h' k)) each_program
    (orderly_rollback env) (fun hc => paired_of_reachable hc)
    (fun q i s b s' hs hq _ hr => (paired_of_run hs hq.starts hr).2) (fun _ _ _ => Lasts.refl _) hc
    (.single hstep)
  obtain ⟨row'', hrow'', hpair⟩ := hgrown k row hrow
  exact ⟨row'', hrow'', ConversationRow.joins_of_pair hpair.symm hu⟩

end Runs

/-! ### What is written of a message -/

/-- The messages that a query puts over one. -/
def Query.writesMessage (l : Uuid) (o : Option MessageRow) (r : MessageRow) :
    {β : Type} → Query β → Prop
  | _, .insertMessage k row => l = k ∧ o = none ∧ r = row
  | _, .softDelete k conversationId sender now =>
    l = k ∧ ∃ row, o = some row ∧ row.softDelete conversationId sender now = some ((), r)
  | _, _ => False

theorem messages_effect {q : Query β} {b : β} (hr : q.run i db = some (b, db')) :
    db.messages.Effect (fun l o r => q.writesMessage l o r) i db'.messages := by
  cases q with
  | insertMessage k row =>
    obtain ⟨p, hp, he⟩ := Option.map_eq_some_iff.mp hr
    cases he
    exact Table.effect_of_insertUnique hp fun _ => ⟨rfl, rfl, rfl⟩
  | softDelete k conversationId sender now =>
    obtain ⟨p, hp, he⟩ := Option.map_eq_some_iff.mp hr
    cases he
    refine Table.effect_of_modify hp fun r hr => ?_
    obtain ⟨row, u, hrow, hdelete⟩ := Table.updating_cases hr
    exact ⟨rfl, row, hrow, hdelete⟩
  | createConversation | addParticipant | nextSeq | markRead | block | unblock =>
    obtain ⟨p, -, he⟩ := Option.map_eq_some_iff.mp hr
    cases he
    exact .keep _
  | commit =>
    cases hr
    exact .commit _
  | rollback =>
    cases hr
    exact .rollback _

/-- A query that neither writes `m` as message `l`, nor over it. -/
def Query.Spares (l : Uuid) (m : MessageRow) {β : Type} (q : Query β) : Prop :=
  ∀ o r, q.writesMessage l o r → (some r = some m) = (o = some m)

theorem spares_insert {row : MessageRow} (h : row ≠ m) : (Query.insertMessage k row).Spares l m := by
  rintro o r ⟨-, rfl, rfl⟩
  exact propext (iff_of_false (fun he => h (Option.some.inj he)) nofun)

theorem spares_softDelete {conversationId sender : Uuid} {now : Instant}
    (h : ¬ (k = l ∧ m.conversationId = conversationId ∧ m.senderUserId = sender)) :
    (Query.softDelete k conversationId sender now).Spares l m := by
  rintro o r ⟨rfl, row, rfl, hdelete⟩
  rw [MessageRow.softDelete] at hdelete
  split at hdelete
  · rename_i hmine
    cases hdelete
    refine propext (iff_of_false (fun he => h ?_) fun he => h ?_)
    · rw [← Option.some.inj he]
      exact ⟨rfl, hmine.1, hmine.2.1⟩
    · rw [← Option.some.inj he]
      exact ⟨rfl, hmine.1, hmine.2.1⟩
  · cases hdelete

/-- **Who may write `m` as message `l`, or over it**: its sender, who sends it or removes it, and is
one of the two accounts of the conversation. -/
def Request.Authors (l : Uuid) (m : MessageRow) (db : Db) : Request → Prop
  | .send k u body => (k = m.conversationId ∧ u = m.senderUserId ∧ trim body = m.body) ∧ db.Joined k u
  | .deleteMessage k l' u =>
    (l' = l ∧ m.conversationId = k ∧ m.senderUserId = u) ∧ db.Joined k u
  | _ => False

/-- What a participant may rely on when it looks. -/
def Looks (i : ℕ) (r : Request) (db : Db) : Prop :=
  r.asks = true → ∀ k u, (db.participants.row i (k, u)).isSome = true → db.Joined k u

/-- A query about anything but messages spares them all. -/
theorem spares_other {q : Query β} (h : ∀ o r, ¬ q.writesMessage l o r) : q.Spares l m :=
  fun o r hwrites => absurd hwrites (h o r)

/-- **A request finds out that it may write a message before it does.** -/
theorem guarded_serve (i : ℕ) (r : Request) :
    (serve env i r).run.Guarded i (Looks i r) (r.Authors l m) fun {_} q => q.Spares l m := by
  have hcommit : Query.commit.Spares l m := spares_other fun _ _ h => h
  have hrollback : Query.rollback.Spares l m := spares_other fun _ _ h => h
  have hstart : AllowsStart (fun {_} q => q.Spares l m) i :=
    ⟨hcommit, hrollback, fun _ _ _ => spares_other fun _ _ h => h,
      fun _ _ _ => spares_other fun _ _ h => h⟩
  cases r with
  | startWithContractor initiator contractorId =>
    exact Prog.guarded_of_each (each_startWithContractor hstart)
  | startWithJob initiator jobId => exact Prog.guarded_of_each (each_startWithJob hstart)
  | send k u body =>
    rw [serve, send]
    dsimp only
    split
    · trivial
    split
    · trivial
    refine Prog.Guarded.bind ?_ fun a => ?_
    · refine Action.guarded_look fun _ now _ _ => Or.inl ?_
      refine Action.guarded_look fun s participant hs hlook => ?_
      cases participant with
      | false => exact Or.inl trivial
      | true =>
        by_cases hmay : k = m.conversationId ∧ u = m.senderUserId ∧ trim body = m.body
        · exact Or.inr ⟨hmay, hs rfl k u hlook⟩
        · refine Or.inl (Prog.guarded_of_each ?_)
          have happend : (append i k u (trim body) now).run.Each fun {_} q => q.Spares l m := by
            refine ⟨spares_other fun _ _ h => h, fun seq => ?_⟩
            cases seq with
            | none => trivial
            | some seq =>
              refine ⟨spares_insert ?_, fun inserted => ?_⟩
              · rintro rfl
                exact hmay ⟨rfl, rfl, rfl⟩
              · cases inserted <;> trivial
          have hrest (blocked : Bool) : (if blocked then throw .forbidden else do
              let message ← append i k u (trim body) now
              pure (Response.message message) : Serving Response).run.Each
                fun {_} q => q.Spares l m := by
            cases blocked with
            | true => trivial
            | false => exact Action.each_andThen happend fun _ => trivial
          intro other
          cases other with
          | none => exact hrest false
          | some other => exact hrest
    · cases a with
      | ok _ => exact ⟨hcommit, fun _ => trivial⟩
      | error _ => exact ⟨hrollback, fun _ => trivial⟩
  | deleteMessage k l' u =>
    refine Action.guarded_look fun s participant hs hlook => ?_
    cases participant with
    | false => exact Or.inl trivial
    | true =>
      by_cases hmay : l' = l ∧ m.conversationId = k ∧ m.senderUserId = u
      · exact Or.inr ⟨hmay, hs rfl k u hlook⟩
      · refine Or.inl (Prog.guarded_of_each fun now => ⟨spares_softDelete hmay, fun removed => ?_⟩)
        cases removed <;> trivial
  | poll k u after limit =>
    refine Prog.guarded_of_each fun participant => ?_
    cases participant with
    | false => trivial
    | true => exact fun _ => trivial
  | markRead k u upToSeq =>
    refine Prog.guarded_of_each fun participant => ?_
    cases participant with
    | false => trivial
    | true => exact ⟨spares_other fun _ _ h => h, fun _ => trivial⟩
  | block blocker blocked reason =>
    refine Prog.guarded_of_each (each_inTransaction hcommit hrollback fun now => ?_)
    show (if blocker = blocked then throw _ else _ : Serving Response).run.Each _
    split
    · trivial
    · exact ⟨spares_other fun _ _ h => h, fun _ => trivial⟩
  | unblock blocker blocked =>
    exact Prog.guarded_of_each ⟨spares_other fun _ _ h => h, fun _ => trivial⟩

/-! ### What is read -/

/-- A page holds messages of its conversation only. -/
theorem conversationId_of_mem {after : ℕ} {limit : ℤ} {message : Message}
    (h : message ∈ afterSeq k after limit i db) : message.conversationId = k := by
  have hfound := (List.mem_insertionSort _).mp (List.mem_of_mem_take h)
  obtain ⟨l, -, hl⟩ := List.mem_filterMap.mp hfound
  obtain ⟨row, hrow, rfl⟩ := Option.map_eq_some_iff.mp hl
  have hk := (Option.filter_eq_some_iff.mp hrow).2
  exact of_decide_eq_true (Bool.and_eq_true_iff.mp hk).1

/-- Account `u` is one of the two accounts of conversation `k`. -/
def one (env : Env) (i : ℕ) (k u : Uuid) : Assertion (pairContract env) i :=
  .ex fun pair => (Assertion.fact (u = pair.1 ∨ u = pair.2)).and (known env i k pair)

theorem one_iff {db : Db} : (one env i k u).holds db ↔ db.Joined k u := by
  constructor
  · rintro ⟨pair, hu, hpair⟩
    obtain ⟨row, hrow, rfl⟩ := Option.map_eq_some_iff.mp hpair
    exact ⟨row, hrow, hu⟩
  · rintro ⟨row, hrow, hu⟩
    exact ⟨row.pair, hu, Option.map_eq_some_iff.mpr ⟨row, hrow, rfl⟩⟩

/-- What is known of the answer to a request: a page is one of the caller's conversation. -/
def paged (env : Env) (i : ℕ) (r : Request) (a : Except AppError Response) :
    Assertion (pairContract env) i :=
  match r, a with
  | .poll k u _ _, .ok (.page messages _) =>
    (one env i k u).and (.fact (∀ message ∈ messages, message.conversationId = k))
  | _, _ => .any

theorem safe_poll {after limit : Option ℤ} :
    Safe (paged env i (.poll k u after limit)) (poll k u after limit).run (bare env i) := by
  refine Safe.read (fun participant => .imp (participant = true) (one env i k u))
    (fun db hinv hbare hrow => ?_) fun participant => ?_
  · -- a participant that the process sees is published, since it has none of its own
    obtain ⟨p, hp⟩ := Option.isSome_iff_exists.mp hrow
    rcases Slot.visible_cases i (db.participants.slot (k, u)) with hlock | hsame
    · obtain ⟨-, -, c, hdraft, hnone, -⟩ := hinv.joining hlock
      exact absurd hnone (hbare k c hdraft)
    · have hpublished : (db.participants.slot (k, u)).committed = some p := hsame.symm.trans hp
      exact one_iff.mpr (hinv.only hpublished)
  · cases participant with
    | false => exact fun _ _ _ => trivial
    | true =>
      refine Safe.read (fun messages => (one env i k u).and
        (.fact (∀ message ∈ messages, message.conversationId = k))) (fun db hinv hone => ?_)
        fun messages => fun _ _ h => h
      exact ⟨hone rfl, fun message hmem => conversationId_of_mem hmem⟩

theorem safe_paged (r : Request) : Safe (paged env i r) (serve env i r).run (bare env i) := by
  have hany (h : paged env i r = fun _ => .any) :
      Safe (paged env i r) (serve env i r).run (bare env i) := by
    rw [h]
    exact (ready_serve r).any_post
  cases r with
  | poll k u after limit => exact safe_poll
  | startWithContractor | startWithJob | send | deleteMessage | markRead | block | unblock =>
    exact hany rfl

/-! ### Whole runs -/

/-- **A conversation is its two accounts'.** In every interleaving, a step that changes what is
published of a message is a query of its sender, who sends it or removes it; and whoever is answered
with a page of messages asked for a conversation of its own, and all of them are in it. Senders and
readers are the two accounts of the conversation. -/
theorem conversation_private {c : Pool}
    (hc : Reachable (messagingService env) anyQuery (.initial {}) c) :
    (∀ d l, Step (messagingService env) anyQuery c d →
      (d.db.messages.slot l).committed ≠ (c.db.messages.slot l).committed →
        ∃ m, (d.db.messages.slot l).committed = some m ∧
          ∃ i r, c.Issues (messagingService env) i r d ∧ r.Authors l m c.db) ∧
      ∀ i k u after limit messages next,
        c.Served i (.poll k u after limit) (.ok (.page messages next)) →
          c.db.Joined k u ∧ ∀ message ∈ messages, message.conversationId = k := by
  constructor
  · intro d l hstep hne
    have hsome : ∃ m, (d.db.messages.slot l).committed = some m := by
      -- a message that is published stays
      cases hnew : (d.db.messages.slot l).committed with
      | some m => exact ⟨m, rfl⟩
      | none =>
        cases hold : (c.db.messages.slot l).committed with
        | none => exact absurd (hnew.trans hold.symm) hne
        | some m =>
          obtain ⟨m', hm', -⟩ := (grows_of_reachable hc (.single hstep)).messages l m hold
          rw [hnew] at hm'
          cases hm'
    obtain ⟨m, hm⟩ := hsome
    have hauthority : Authority (messagingService env) anyQuery {} (fun db => db.messages.slot l)
        (fun o => o = some m) fun r db => r.Authors l m db := by
      refine .of_guarded (J := Looks) (φ := fun _ {_} q => q.Spares l m) rfl
        (fun q i s b s' hr => (messages_effect hr).moves l) (fun i s s' hr => by cases hr; rfl)
        (fun s n => rfl) (fun i r => Or.inl (guarded_serve i r))
        (fun hc hi hasks k u hrow => joined_of_row hc hi hasks hrow) (fun hc hstep h => ?_)
        fun q i r s b s' hq hr =>
          (messages_effect hr).reads (f := fun o => o = some m) fun o r => hq o r
      revert h
      rename_i r
      cases r with
      | send | deleteMessage => exact fun h => ⟨h.1, joined_of_step hc hstep h.2⟩
      | startWithContractor | startWithJob | poll | markRead | block | unblock => exact id
    refine ⟨m, hm, hauthority.changed hc hstep fun heq => hne ?_⟩
    rw [hm, heq.mp hm]
  · intro i k u after limit messages next hserved
    have hempty : Db.pairs {} := PairInv.empty
    have hbare : ∀ i, (bare env i).holds {} := fun i k c hdraft => nomatch hdraft
    obtain ⟨hinv, htracked⟩ :=
      (pairContract env).of_reachable (fun _ r => safe_paged r) hempty hbare hc
    have hpage := htracked.served hinv hserved
    exact ⟨one_iff.mp hpage.1, hpage.2⟩

/-- Account `0` writes to account `1`, which polls. -/
theorem conversation_private_hello : ∃ c d e : Pool,
    Reachable (messagingService oneOwner) anyQuery (.initial {}) c ∧
      Step (messagingService oneOwner) anyQuery c d ∧
      (∃ m, (d.db.messages.slot 1).committed = some m ∧
        ∃ i r, c.Issues (messagingService oneOwner) i r d ∧ r.Authors 1 m c.db) ∧
      Reachable (messagingService oneOwner) anyQuery d e ∧
      e.Served 2 (.poll 0 1 none none) (.ok (.page (twoMessages.take 1) 1)) ∧ e.db.Joined 0 1 := by
  have hrun := exists_of_exec_step_exec (messagingService oneOwner)
    (.arrive 0 (.startWithContractor 0 7) :: List.replicate 8 (.run 0) ++
      .arrive 1 (.send 0 0 "hello".toList) :: List.replicate 6 (.run 1)) (.run 1)
    (.arrive 2 (.poll 0 1 none none) :: List.replicate 2 (.run 2)) (.initial {})
    (fun c d e => (c.db.messages.slot 1).committed.isNone &&
      (d.db.messages.slot 1).committed.isSome &&
      decide (e.Served 2 (.poll 0 1 none none) (.ok (.page (twoMessages.take 1) 1))))
    (by decide +kernel)
  obtain ⟨c, d, e, hc, hstep, he, hP⟩ := hrun
  simp only [Bool.and_eq_true, decide_eq_true_eq] at hP
  obtain ⟨⟨hbefore, hafter⟩, hserved⟩ := hP
  have hnew : (d.db.messages.slot 1).committed ≠ (c.db.messages.slot 1).committed := by
    rw [Option.isNone_iff_eq_none.mp hbefore]
    exact Option.isSome_iff_ne_none.mp hafter
  exact ⟨c, d, e, hc, hstep, (conversation_private hc).1 d 1 hstep hnew, he, hserved,
    ((conversation_private ((hc.tail hstep).trans he)).2 2 0 1 none none _ 1 hserved).1⟩

end Messaging

end Marketplace
