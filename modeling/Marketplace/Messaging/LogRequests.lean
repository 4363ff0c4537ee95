import Marketplace.Messaging.Log
import Marketplace.Messaging.Service

/-!
# The log under any interleaving

The requests, seen by the log: those that start a conversation create it empty, a send takes a
place and fills it before it commits, and the others leave the counters alone. So the published
log of every conversation is complete in every configuration that is reached
(`Marketplace.Messaging.tracked_of_reachable`), and what is published of it only grows.
-/

namespace Marketplace

namespace Messaging

open ReadCommitted

variable {env : Env} {i : ℕ} {db db' : Db} {α β : Type}

/-! ### The contract -/

/-- **The log has only grown.** -/
structure Grows (db db' : Db) : Prop where
  /-- No counter has gone back. -/
  conversations : Table.Grown ConversationRow.Later db.conversations db'.conversations
  /-- No published message has left its place. -/
  messages : Table.Grown MessageRow.Stays db.messages db'.messages

theorem Grows.refl (db : Db) : Grows db db :=
  ⟨fun _ => ConversationRow.Later.refl _, fun _ => MessageRow.Stays.refl _⟩

theorem Grows.trans (db₁ db₂ db₃ : Db) (h : Grows db₁ db₂) (h' : Grows db₂ db₃) :
    Grows db₁ db₃ :=
  ⟨fun k => ConversationRow.Later.trans _ _ _ (h.conversations k) (h'.conversations k),
    fun l => MessageRow.Stays.trans _ _ _ (h.messages l) (h'.messages l)⟩

/-- What a step of process `i` does to the log. -/
structure LogStep (i : ℕ) (db db' : Db) : Prop where
  /-- Conversations. -/
  conversations : db.conversations.Moves i db'.conversations
  /-- Messages. -/
  messages : db.messages.Moves i db'.messages
  /-- The log has only grown. -/
  grows : Grows db db'

/-- The log of a database. -/
abbrev Db.log (db : Db) : Prop := LogInv db.conversations db.messages

/-- **A query of process `i` is a step of the log.** -/
theorem logStep_of_run {q : Query β} {b : β} (hq : q.startsEmpty) (h : db.log)
    (hr : q.run i db = some (b, db')) : LogStep i db db' := by
  have heff := Query.effects hq hr
  have hconversations := heff.conversations.ordered ConversationRow.Later.refl
    ConversationRow.Later.trans h.later fun _ _ hact => hact.later
  have hmessages := heff.messages.ordered MessageRow.Stays.refl MessageRow.Stays.trans h.stays
    fun _ _ hact => hact.stays
  exact ⟨heff.conversations.moves, heff.messages.moves, hconversations.2, hmessages.2⟩

/-- The contract of the log. -/
def logContract (env : Env) : Contract (messagingService env) anyQuery where
  inv := Db.log
  guar := LogStep
  inv_tick _ h := h
  rollback h _ hr := by
    rw [messagingService_run] at hr
    have hstep := logStep_of_run (q := .rollback) trivial h hr
    cases hr
    exact ⟨h.rollback, hstep⟩

/-- Process `i` holds no conversation. -/
def free (env : Env) (i : ℕ) : Assertion (logContract env) i where
  holds db := Free i db.conversations
  stable hne _ _ hg h := h.of_moves hg.conversations hne
  tick _ _ h := h

/-- Process `i` owes conversation `k` a message in place `s`. -/
def owes (env : Env) (i : ℕ) (k : Uuid) (s : ℕ) : Assertion (logContract env) i where
  holds db := Owes i k s db.conversations
  stable hne _ _ hg h := h.of_moves hg.conversations hne
  tick _ _ h := h

/-- Process `i` has paid for what it took. -/
def paid (env : Env) (i : ℕ) : Assertion (logContract env) i where
  holds db := Paid i db.conversations db.messages
  stable hne _ _ hg h := h.of_moves hg.conversations hg.messages hne
  tick _ _ h := h

/-- What is known at the end of the body of a transaction: all is paid for, unless it failed. -/
def settling (env : Env) (i : ℕ) : Except AppError α → Assertion (logContract env) i :=
  Assertion.onOk (fun _ => paid env i) fun _ => .any

/-! ### Queries -/

/-- The queries that leave conversations and messages alone. -/
def Query.sparesLog : Query β → Bool
  | .addParticipant _ _ _ | .markRead _ _ _ | .block _ _ _ | .unblock _ _ => true
  | _ => false

theorem log_of_spares {q : Query β} {b : β} (hq : q.sparesLog = true)
    (hr : q.run i db = some (b, db')) :
    db'.conversations = db.conversations ∧ db'.messages = db.messages := by
  cases q with
  | addParticipant k u role =>
    obtain ⟨p, -, he⟩ := Option.map_eq_some_iff.mp hr
    cases he
    exact ⟨rfl, rfl⟩
  | markRead k u upToSeq =>
    obtain ⟨p, -, he⟩ := Option.map_eq_some_iff.mp hr
    cases he
    exact ⟨rfl, rfl⟩
  | block a b' reason =>
    obtain ⟨p, -, he⟩ := Option.map_eq_some_iff.mp hr
    cases he
    exact ⟨rfl, rfl⟩
  | unblock a b' =>
    obtain ⟨p, -, he⟩ := Option.map_eq_some_iff.mp hr
    cases he
    exact ⟨rfl, rfl⟩
  | createConversation => cases hq
  | nextSeq => cases hq
  | insertMessage => cases hq
  | softDelete => cases hq
  | commit => cases hq
  | rollback => cases hq

/-- A query that spares the log keeps what is known of it. -/
theorem keeps_of_spares {q : Query β} (hq : q.sparesLog = true) (hstarts : q.startsEmpty)
    {P : Assertion (logContract env) i}
    (hP : ∀ db db', db'.conversations = db.conversations → db'.messages = db.messages →
      P.holds db → P.holds db') : (logContract env).Keeps P q := by
  intro db b db' hinv h _ hr
  rw [messagingService_run] at hr
  obtain ⟨hcs, hms⟩ := log_of_spares hq hr
  refine ⟨?_, logStep_of_run hstarts hinv hr, hP db db' hcs hms h⟩
  show LogInv db'.conversations db'.messages
  rw [hcs, hms]
  exact hinv

theorem free_of_spares {q : Query β} (hq : q.sparesLog = true) (hstarts : q.startsEmpty) :
    (logContract env).Keeps (free env i) q :=
  keeps_of_spares hq hstarts fun db db' hcs _ h => by
    show Free i db'.conversations
    rw [hcs]
    exact h

theorem paid_of_spares {q : Query β} (hq : q.sparesLog = true) (hstarts : q.startsEmpty) :
    (logContract env).Keeps (paid env i) q :=
  keeps_of_spares hq hstarts fun db db' hcs hms h => by
    show Paid i db'.conversations db'.messages
    rw [hcs, hms]
    exact h

/-- Removing a message keeps the log. -/
theorem free_softDelete {k conversationId sender : Uuid} {now : Instant} :
    (logContract env).Keeps (free env i) (.softDelete k conversationId sender now) := by
  intro db b db' hinv h _ hr
  rw [messagingService_run] at hr
  have hstep := logStep_of_run (q := .softDelete k conversationId sender now) trivial hinv hr
  obtain ⟨p, hp, he⟩ := Option.map_eq_some_iff.mp hr
  cases he
  exact ⟨hinv.softDelete hp, hstep, h⟩

/-- A conversation that is created is paid for: it is empty. -/
theorem paid_createConversation {k : Uuid} {c : ConversationRow} (hc : c.lastSeq = 0) {b : Bool}
    (hinv : db.log) (h : Free i db.conversations)
    (hr : (Query.createConversation k c).run i db = some (b, db')) :
    db'.log ∧ LogStep i db db' ∧ Paid i db'.conversations db'.messages := by
  have hstep := logStep_of_run (q := .createConversation k c) hc hinv hr
  obtain ⟨⟨b', cs⟩, hp, he⟩ := Option.map_eq_some_iff.mp hr
  cases he
  have hlog := hinv.create hc hp
  refine ⟨hlog, hstep, fun l c₁ c₂ hcommitted hlock => ?_⟩
  -- only the new row is held, and it is not published
  rcases (Table.insertUnique_cases hp).2 with ⟨-, rfl⟩ | ⟨hp, -⟩
  · exact absurd hlock (h l _)
  · obtain ⟨hmay, -, ⟨-, rfl⟩ | ⟨c', hc', rfl⟩⟩ := Table.modify_cases hp
    · exact absurd hlock (h l _)
    · have hold : (db.conversations.slot l).committed = some c₁ := by
        rw [← Table.committed_modify hp l, hcommitted]
      rcases eq_or_ne l k with rfl | hne
      · have hrow := (Table.inserting_cases hc').1
        rw [(h.row hmay).2, hold] at hrow
        cases hrow
      · rw [Table.slot_put_of_ne hne] at hlock
        exact absurd hlock (h l _)

/-- A message in the place that was taken for it pays for that. -/
theorem paid_insertMessage {k : Uuid} {m : MessageRow} {b : Bool} (hinv : db.log)
    (h : Owes i m.conversationId m.seq db.conversations)
    (hr : (Query.insertMessage k m).run i db = some (b, db')) :
    db'.log ∧ LogStep i db db' ∧ (b = true → Paid i db'.conversations db'.messages) := by
  have hstep := logStep_of_run (q := .insertMessage k m) trivial hinv hr
  obtain ⟨p, hp, he⟩ := Option.map_eq_some_iff.mp hr
  cases he
  obtain ⟨hlog, hpaid⟩ := LogInv.insert hinv h hp
  exact ⟨hlog, hstep, hpaid⟩

/-! ### Programs -/

/-- A transaction commits what it has paid for. -/
theorem safe_inTransaction {body : Instant → Serving α} {P : Assertion (logContract env) i}
    (h : ∀ now, Safe (settling env i) (body now).run P) :
    Safe (fun _ => .any) (inTransaction body).run P := by
  refine Safe.transaction (settling env i) (Safe.look_keep h) ?_ ?_
  · intro a db b db' hinv hpaid _ hr
    rw [messagingService_run] at hr
    have hstep := logStep_of_run (q := .commit) trivial hinv hr
    cases hr
    exact ⟨hinv.commit hpaid, hstep, trivial⟩
  · intro e db b db' hinv _ _ hr
    rw [messagingService_run] at hr
    have hstep := logStep_of_run (q := .rollback) trivial hinv hr
    cases hr
    exact ⟨hinv.rollback, hstep, trivial⟩

/-- A request that failed has nothing to pay for. -/
theorem safe_throw {e : AppError} {P : Assertion (logContract env) i} :
    Safe (settling env i) (throw e : Serving α).run P :=
  fun _ _ _ => trivial

theorem log_findOrCreateDm {initiator recipient : Uuid} {contractorId jobId : Option Uuid}
    {now : Instant} :
    Safe (settling env i) (findOrCreateDm i initiator recipient contractorId jobId now).run
      (free env i) := by
  rw [findOrCreateDm]
  split
  · exact safe_throw
  · refine Safe.query_andThen (fun _ => paid env i) (fun db b db' hinv h _ hr => ?_)
      fun inserted => ?_
    · rw [messagingService_run] at hr
      exact paid_createConversation rfl hinv h hr
    refine Safe.look_keep fun found => ?_
    cases found with
    | none => exact safe_throw
    | some conversation =>
      cases inserted with
      | false => exact fun _ _ h => h
      | true =>
        refine Safe.query_keep (paid_of_spares rfl trivial) fun _ => ?_
        refine Safe.query_keep (paid_of_spares rfl trivial) fun _ => ?_
        exact fun _ _ h => h

/-- Starting a conversation, once the gates are passed. -/
theorem log_start {initiator recipient : Uuid} {contractorId jobId : Option Uuid}
    {now : Instant} :
    Safe (settling env i) (do
      let conversation ← findOrCreateDm i initiator recipient contractorId jobId now
      pure (Response.conversation conversation) : Serving Response).run (free env i) := by
  refine Safe.andThen (fun _ => paid env i) log_findOrCreateDm fun conversation => ?_
  exact fun _ _ h => h

theorem log_startWithContractor {initiator contractorId : Uuid} :
    Safe (fun _ => .any) (startWithContractor env i initiator contractorId).run (free env i) := by
  refine safe_inTransaction fun now => Safe.look_keep fun target => ?_
  cases target with
  | none => exact safe_throw
  | some target =>
    dsimp only
    rcases target.claimedByUserId with _ | owner
    · exact safe_throw
    · dsimp only
      split
      · exact safe_throw
      split
      · exact safe_throw
      · refine Safe.look_keep fun blocked => ?_
        cases blocked with
        | true => exact safe_throw
        | false => exact log_start

theorem log_startWithJob {initiator jobId : Uuid} :
    Safe (fun _ => .any) (startWithJob env i initiator jobId).run (free env i) := by
  refine safe_inTransaction fun now => Safe.look_keep fun contractor => ?_
  cases contractor with
  | none => exact safe_throw
  | some contractorId =>
    refine Safe.look_keep fun poster => ?_
    cases poster with
    | none => exact safe_throw
    | some poster =>
      dsimp only
      split
      · exact safe_throw
      · refine Safe.look_keep fun blocked => ?_
        cases blocked with
        | true => exact safe_throw
        | false => exact log_start

/-- **A send takes a place and fills it.** -/
theorem log_append {conversationId sender : Uuid} {body : Text} {now : Instant} :
    Safe (settling env i) (append i conversationId sender body now).run (free env i) := by
  refine Safe.query_andThen
    (fun seq => seq.elim (free env i) fun s => owes env i conversationId s)
    (fun db b db' hinv h _ hr => ?_) fun seq => ?_
  · rw [messagingService_run] at hr
    have hstep := logStep_of_run (q := .nextSeq conversationId now) trivial hinv hr
    obtain ⟨p, hp, he⟩ := Option.map_eq_some_iff.mp hr
    cases he
    obtain ⟨hlog, ⟨hb, hsame⟩ | ⟨s, hb, howes⟩⟩ := LogInv.next hinv h hp
    · refine ⟨hlog, hstep, ?_⟩
      rw [hb]
      show Free i p.2
      rw [hsame]
      exact h
    · refine ⟨hlog, hstep, ?_⟩
      rw [hb]
      exact howes
  · cases seq with
    | none => exact safe_throw
    | some seq =>
      refine Safe.query_andThen (fun inserted => if inserted then paid env i else .any)
        (fun db b db' hinv h _ hr => ?_) fun inserted => ?_
      · rw [messagingService_run] at hr
        obtain ⟨hlog, hstep, hpaid⟩ := paid_insertMessage hinv (by exact h) hr
        refine ⟨hlog, hstep, ?_⟩
        split
        · rename_i hb
          exact hpaid hb
        · trivial
      · cases inserted with
        | true => exact fun _ _ h => h
        | false => exact safe_throw

theorem log_send {conversationId sender : Uuid} {body : Text} :
    Safe (fun _ => .any) (send i conversationId sender body).run (free env i) := by
  rw [send]
  dsimp only
  split
  · exact fun _ _ _ => trivial
  split
  · exact fun _ _ _ => trivial
  · refine safe_inTransaction fun now => Safe.look_keep fun participant => ?_
    cases participant with
    | false => exact safe_throw
    | true =>
      refine Safe.look_keep fun other => ?_
      have hrest : ∀ blocked : Bool, Safe (settling env i)
          (if blocked then throw .forbidden else do
            let message ← append i conversationId sender (trim body) now
            pure (Response.message message) : Serving Response).run (free env i) := by
        intro blocked
        cases blocked with
        | true => exact safe_throw
        | false => exact Safe.andThen (fun _ => paid env i) log_append fun message => fun _ _ h => h
      cases other with
      | none => exact hrest false
      | some other => exact Safe.look_keep hrest

theorem log_poll {conversationId userId : Uuid} {after limit : Option ℤ} :
    Safe (fun _ => .any) (poll conversationId userId after limit).run (free env i) := by
  refine Safe.look_keep fun participant => ?_
  cases participant with
  | false => exact fun _ _ _ => trivial
  | true => exact Safe.read_keep fun messages => fun _ _ _ => trivial

theorem log_deleteMessage {conversationId messageId sender : Uuid} :
    Safe (fun _ => .any) (deleteMessage conversationId messageId sender).run (free env i) := by
  refine Safe.look_keep fun participant => ?_
  cases participant with
  | false => exact fun _ _ _ => trivial
  | true =>
    refine Safe.look_keep fun now => Safe.query_keep free_softDelete fun removed => ?_
    cases removed <;> exact fun _ _ _ => trivial

theorem log_markRead {conversationId userId : Uuid} {upToSeq : ℤ} :
    Safe (fun _ => .any) (markRead conversationId userId upToSeq).run (free env i) := by
  refine Safe.look_keep fun participant => ?_
  cases participant with
  | false => exact fun _ _ _ => trivial
  | true => exact Safe.query_keep (free_of_spares rfl trivial) fun _ => fun _ _ _ => trivial

theorem log_block {blocker blocked : Uuid} {reason : Option Text} :
    Safe (fun _ => .any) (block blocker blocked reason).run (free env i) := by
  refine safe_inTransaction fun now => ?_
  split
  · exact safe_throw
  · refine Safe.query_keep (free_of_spares rfl trivial) fun _ => ?_
    exact fun _ _ h => Free.paid h

theorem log_unblock {blocker blocked : Uuid} :
    Safe (fun _ => .any) (unblock blocker blocked).run (free env i) :=
  Safe.query_keep (free_of_spares rfl trivial) fun _ => fun _ _ _ => trivial

theorem log_serve (r : Request) : Safe (fun _ => .any) (serve env i r).run (free env i) := by
  cases r with
  | startWithContractor initiator contractorId => exact log_startWithContractor
  | startWithJob initiator jobId => exact log_startWithJob
  | send conversationId sender body => exact log_send
  | poll conversationId userId after limit => exact log_poll
  | deleteMessage conversationId messageId sender => exact log_deleteMessage
  | markRead conversationId userId upToSeq => exact log_markRead
  | block blocker blocked reason => exact log_block
  | unblock blocker blocked => exact log_unblock

/-! ### Whole runs -/

variable {c d : Config ℕ Db Request (Except AppError Response) Query}

/-- Where every process is, in a configuration that is reached. -/
theorem tracked_of_reachable (h : Reachable (messagingService env) anyQuery (.initial {}) c) :
    c.db.log ∧ (logContract env).Tracked (free env) (fun _ _ _ => .any) c := by
  have hempty : Db.log {} := LogInv.empty
  have hfree : ∀ i, (free env i).holds {} := fun i k v hlock => nomatch hlock
  exact (logContract env).of_reachable (fun _ r => log_serve r) hempty hfree h

/-- What is published of the log only grows. -/
theorem grows_of_reachable (hc : Reachable (messagingService env) anyQuery (.initial {}) c)
    (h : Reachable (messagingService env) anyQuery c d) : Grows c.db d.db := by
  obtain ⟨hlog, htracked⟩ := tracked_of_reachable hc
  exact ((logContract env).rel_of_reachable (fun _ r => log_serve r) Grows Grows.refl Grows.trans
    (fun _ _ _ _ _ hstep => hstep.grows) (fun db _ => ⟨(Grows.refl db).1, (Grows.refl db).2⟩)
    hlog htracked h).1

end Messaging

end Marketplace
