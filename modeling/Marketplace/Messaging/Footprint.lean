import Marketplace.Messaging.LogRequests
import Marketplace.ReadCommitted.Lasting

/-!
# Which queries a request issues, and what is new after a step

A request creates rows under its own number only, and a conversation it creates is between two
accounts, in order. What is new among the published conversations and messages after a step was
a draft of the process that took it: nothing but a commit publishes a new row.
-/

namespace Marketplace

namespace Messaging

open ReadCommitted

variable {env : Env} {i j : ℕ} {db db' : Db} {α β : Type}

/-! ### The queries of a request -/

/-- **What process `i` may issue**: the rows it creates are its own, and a conversation it creates
is empty and between two accounts, in order. -/
def Query.orderly (i : ℕ) : {β : Type} → Query β → Prop
  | _, .createConversation k c => k = i ∧ c.lastSeq = 0 ∧ c.dmLo < c.dmHi
  | _, .insertMessage k _ => k = i
  | _, _ => True

/-- A query that process `i` may issue whatever it serves: it neither creates a conversation nor
adds a participant. -/
def Query.plain (i : ℕ) : {β : Type} → Query β → Prop
  | _, .createConversation _ _ | _, .addParticipant _ _ _ => False
  | _, .insertMessage k _ => k = i
  | _, _ => True

theorem Query.plain.orderly {q : Query β} (h : q.plain i) : q.orderly i := by
  cases q with
  | createConversation | addParticipant => exact h.elim
  | insertMessage k m => exact h
  | nextSeq | softDelete | markRead | block | unblock | commit | rollback => trivial

theorem Query.orderly.starts {q : Query β} (h : q.orderly i) : q.startsEmpty := by
  cases q with
  | createConversation k c => exact h.2.1
  | addParticipant | nextSeq | insertMessage | softDelete | markRead | block | unblock | commit
  | rollback => trivial

/-- A pair in order. -/
theorem ordered_lt {a b : Uuid} (h : a ≠ b) : (ordered a b).1 < (ordered a b).2 := by
  rw [ordered]
  split
  · assumption
  · rename_i hle
    exact lt_of_le_of_ne (not_lt.mp hle) h.symm

theorem ordered_comm (a b : Uuid) : ordered a b = ordered b a := by
  rw [ordered, ordered]
  rcases lt_trichotomy a b with h | rfl | h
  · rw [if_pos h, if_neg (lt_asymm h)]
  · rfl
  · rw [if_neg (lt_asymm h), if_pos h]

theorem each_inTransaction {φ : {β : Type} → Query β → Prop} {body : Instant → Serving α}
    (hc : φ .commit) (hr : φ .rollback) (h : ∀ now, (body now).run.Each φ) :
    (inTransaction body).run.Each φ :=
  Action.each_transaction hc hr h

/-- What starting a conversation asks for. -/
structure AllowsStart (φ : {β : Type} → Query β → Prop) (i : ℕ) : Prop where
  commit : φ .commit
  rollback : φ .rollback
  create : ∀ c, c.lastSeq = 0 → c.dmLo < c.dmHi → φ (.createConversation i c)
  add : ∀ k u role, φ (.addParticipant k u role)

section Start

variable {φ : {β : Type} → Query β → Prop} (h : AllowsStart φ i)
include h

theorem each_findOrCreateDm {initiator recipient : Uuid} {contractorId jobId : Option Uuid}
    {now : Instant} :
    (findOrCreateDm i initiator recipient contractorId jobId now).run.Each φ := by
  rw [findOrCreateDm]
  split
  · trivial
  · rename_i hne
    refine ⟨h.create _ rfl (ordered_lt hne), fun inserted found => ?_⟩
    cases found with
    | none => trivial
    | some conversation =>
      cases inserted with
      | true => exact ⟨h.add _ _ _, fun _ => ⟨h.add _ _ _, fun _ => trivial⟩⟩
      | false => trivial

/-- Starting a conversation, once the gates are passed. -/
theorem each_start {initiator recipient : Uuid} {contractorId jobId : Option Uuid}
    {now : Instant} (blocked : Bool) :
    (if blocked then throw .forbidden else do
      let conversation ← findOrCreateDm i initiator recipient contractorId jobId now
      pure (Response.conversation conversation) : Serving Response).run.Each φ := by
  cases blocked with
  | true => trivial
  | false => exact Action.each_andThen (each_findOrCreateDm h) fun _ => trivial

theorem each_startWithContractor {initiator contractorId : Uuid} :
    (startWithContractor env i initiator contractorId).run.Each φ := by
  refine each_inTransaction h.commit h.rollback fun now target => ?_
  cases target with
  | none => trivial
  | some target =>
    obtain ⟨claimedByUserId, acceptsDm⟩ := target
    cases claimedByUserId with
    | none => trivial
    | some owner =>
      show (if !acceptsDm then throw .forbidden else if owner = initiator then throw _ else _ :
        Serving Response).run.Each _
      split
      · trivial
      split
      · trivial
      · exact each_start h

theorem each_startWithJob {initiator jobId : Uuid} :
    (startWithJob env i initiator jobId).run.Each φ := by
  refine each_inTransaction h.commit h.rollback fun now contractor => ?_
  cases contractor with
  | none => trivial
  | some contractorId =>
    intro poster
    cases poster with
    | none => trivial
    | some poster =>
      show (if poster = initiator then throw _ else _ : Serving Response).run.Each _
      split
      · trivial
      · exact each_start h

end Start

theorem each_append {conversationId sender : Uuid} {body : Text} {now : Instant} :
    (append i conversationId sender body now).run.Each (Query.plain i) := by
  refine ⟨trivial, fun seq => ?_⟩
  cases seq with
  | none => trivial
  | some seq =>
    refine ⟨rfl, fun inserted => ?_⟩
    cases inserted <;> trivial

theorem each_send {conversationId sender : Uuid} {body : Text} :
    (send i conversationId sender body).run.Each (Query.plain i) := by
  rw [send]
  dsimp only
  split
  · trivial
  split
  · trivial
  · refine each_inTransaction trivial trivial fun now participant => ?_
    cases participant with
    | false => trivial
    | true =>
      have hrest : ∀ blocked : Bool, (if blocked then throw .forbidden else do
          let message ← append i conversationId sender (trim body) now
          pure (Response.message message) : Serving Response).run.Each (Query.plain i) := by
        intro blocked
        cases blocked with
        | true => trivial
        | false => exact Action.each_andThen each_append fun _ => trivial
      intro other
      cases other with
      | none => exact hrest false
      | some other => exact hrest

/-- A request that starts a conversation. -/
def Request.starts : Request → Bool
  | .startWithContractor _ _ | .startWithJob _ _ => true
  | _ => false

/-- **Every request that starts no conversation is plain.** -/
theorem each_serve_plain {r : Request} (hr : r.starts = false) :
    (serve env i r).run.Each (Query.plain i) := by
  cases r with
  | startWithContractor | startWithJob => cases hr
  | send conversationId sender body => exact each_send
  | poll conversationId userId after limit =>
    intro participant
    cases participant with
    | false => trivial
    | true => exact fun _ => trivial
  | deleteMessage conversationId messageId sender =>
    intro participant
    cases participant with
    | false => trivial
    | true =>
      refine fun now => ⟨trivial, fun removed => ?_⟩
      cases removed <;> trivial
  | markRead conversationId userId upToSeq =>
    intro participant
    cases participant with
    | false => trivial
    | true => exact ⟨trivial, fun _ => trivial⟩
  | block blocker blocked reason =>
    refine each_inTransaction trivial trivial fun now => ?_
    show (if blocker = blocked then throw _ else _ : Serving Response).run.Each _
    split
    · trivial
    · exact ⟨trivial, fun _ => trivial⟩
  | unblock blocker blocked => exact ⟨trivial, fun _ => trivial⟩

/-- **Every request is orderly.** -/
theorem each_serve (r : Request) : (serve env i r).run.Each (Query.orderly i) := by
  cases hr : r.starts with
  | false => exact (each_serve_plain hr).mono fun _ hq => hq.orderly
  | true =>
    have hstart : AllowsStart (Query.orderly i) i :=
      ⟨trivial, trivial, fun _ hempty hlt => ⟨rfl, hempty, hlt⟩, fun _ _ _ => trivial⟩
    cases r with
    | startWithContractor initiator contractorId => exact each_startWithContractor hstart
    | startWithJob initiator jobId => exact each_startWithJob hstart
    | send | poll | deleteMessage | markRead | block | unblock => cases hr

theorem each_program (i : ℕ) (r : Request) :
    ((messagingService env).program i r).Each fun {_} q => q.orderly i :=
  each_serve r

theorem orderly_rollback (env : Env) (i : ℕ) : (messagingService env).rollback.orderly i := trivial

/-! ### The pair of a conversation -/

/-- The two accounts of a conversation. -/
def ConversationRow.pair (c : ConversationRow) : Uuid × Uuid := (c.dmLo, c.dmHi)

/-- The two accounts of a published conversation. -/
def Db.pair (k : Uuid) (db : Db) : Option (Uuid × Uuid) :=
  (db.conversations.slot k).committed.map ConversationRow.pair

/-- The versions over the conversations are about the same accounts. -/
abbrev Db.Paired (db : Db) : Prop := db.conversations.Ordered (Lasts ConversationRow.pair)

theorem ConversationRow.Act.lasts {o : Option ConversationRow} {c : ConversationRow}
    (h : Act o c) : Lasts ConversationRow.pair o (some c) := by
  cases h with
  | created => exact Lasts.none
  | counted => exact Lasts.some rfl

/-- **A published conversation stays, and is about the same accounts.** -/
theorem paired_of_run {q : Query β} {b : β} (h : db.Paired) (hq : q.startsEmpty)
    (hr : q.run i db = some (b, db')) :
    db'.Paired ∧ Table.Grown (Lasts ConversationRow.pair) db.conversations db'.conversations :=
  (Query.effects hq hr).conversations.ordered Lasts.refl Lasts.trans h fun _ _ hact => hact.lasts

variable {C : Proviso ℕ Db Query} {c d : Config ℕ Db Request (Except AppError Response) Query}

theorem paired_of_reachable (h : Reachable (messagingService env) C (.initial {}) c) :
    c.db.Paired := by
  have hempty : Db.Paired {} := fun _ _ _ hlock => nomatch hlock
  refine invariant_of_queries Db.Paired each_program (orderly_rollback env)
    (fun q i db b db' h hq _ hr => ?_) (fun _ _ h => h) hempty h
  exact (paired_of_run h hq.starts hr).1

theorem pair_of_grown {k : Uuid} {p : Uuid × Uuid} (h : db.pair k = some p)
    (hgrown : Table.Grown (Lasts ConversationRow.pair) db.conversations db'.conversations) :
    db'.pair k = some p := by
  obtain ⟨c, hc, rfl⟩ := Option.map_eq_some_iff.mp h
  obtain ⟨c', hc', hpair⟩ := hgrown k c hc
  exact Option.map_eq_some_iff.mpr ⟨c', hc', hpair⟩

theorem participants_moves {q : Query β} {r : β} (hr : q.run i db = some (r, db')) :
    Table.Moves i db.participants db'.participants := by
  cases q with
  | createConversation | nextSeq | insertMessage | softDelete | block | unblock =>
    obtain ⟨p, -, he⟩ := Option.map_eq_some_iff.mp hr
    cases he
    exact .refl _ _
  | addParticipant | markRead =>
    obtain ⟨p, hp, he⟩ := Option.map_eq_some_iff.mp hr
    cases he
    exact (Table.effect_of_modify (A := fun _ _ _ => True) hp fun _ _ => trivial).moves
  | commit =>
    cases hr
    exact Table.moves_commit _ _
  | rollback =>
    cases hr
    exact Table.moves_rollback _ _

/-! ### What is new after a query -/

end Messaging

end Marketplace
