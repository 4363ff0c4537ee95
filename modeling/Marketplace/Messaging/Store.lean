import Marketplace.ReadCommitted.Unique
import Marketplace.ReadCommitted.RelyGuarantee
import Marketplace.Auth.Text

/-!
# Conversations and their messages

Two mechanisms carry direct messaging. There is one conversation per pair of accounts: the
pair is stored in order and covered by a unique index. And each message takes its place from
a counter on the row of its conversation (`Marketplace.Messaging.Query.nextSeq`), whose lock
it then holds until it commits.

A message that is removed keeps its row and its place, and loses its body only in what is
shown of it (`Marketplace.Messaging.MessageRow.shown`).
-/

namespace Marketplace

namespace Messaging

open ReadCommitted

/-! ### Rows -/

/-- A row of `conversations`. -/
structure ConversationRow where
  /-- The listing the conversation is about. -/
  contractorId : Option Uuid
  /-- The posting it came from. -/
  jobId : Option Uuid
  /-- The lesser of the two accounts. -/
  dmLo : Uuid
  /-- The greater one. -/
  dmHi : Uuid
  /-- Who started it. -/
  createdBy : Uuid
  /-- When it was started. -/
  createdAt : Instant
  /-- The place of the last message. -/
  lastSeq : ℕ := 0
  /-- When that one was sent. -/
  lastMessageAt : Option Instant := none
  deriving DecidableEq

/-- The side of a conversation. -/
inductive ParticipantRole
  /-- Who started it. -/
  | initiator
  /-- Who was written to. -/
  | recipient
  deriving DecidableEq

/-- A row of `conversation_participants`. -/
structure Participant where
  /-- The side. -/
  role : ParticipantRole
  /-- The last place the participant has read. -/
  lastReadSeq : ℕ := 0
  deriving DecidableEq

/-- A row of `messages`. -/
structure MessageRow where
  /-- The conversation. -/
  conversationId : Uuid
  /-- The place in it. -/
  seq : ℕ
  /-- Who sent the message. -/
  senderUserId : Uuid
  /-- The text. -/
  body : Text
  /-- When it was sent. -/
  createdAt : Instant
  /-- When it was removed. -/
  deletedAt : Option Instant := none
  /-- Who removed it. -/
  deletedBy : Option Uuid := none
  deriving DecidableEq

/-- A row of `user_blocks`. -/
structure Block where
  /-- Why. -/
  reason : Option Text
  deriving DecidableEq

/-- A conversation, as it is shown. -/
structure Conversation where
  /-- The row. -/
  id : Uuid
  /-- The listing it is about. -/
  contractorId : Option Uuid
  /-- The place of the last message. -/
  lastSeq : ℕ
  /-- When that one was sent. -/
  lastMessageAt : Option Instant
  /-- When it was started. -/
  createdAt : Instant
  deriving DecidableEq

/-- A message, as it is shown. -/
structure Message where
  /-- The row. -/
  id : Uuid
  /-- The conversation. -/
  conversationId : Uuid
  /-- The place in it. -/
  seq : ℕ
  /-- Who sent the message. -/
  senderUserId : Uuid
  /-- The text. -/
  body : Text
  /-- When it was sent. -/
  createdAt : Instant
  /-- Whether it was removed. -/
  deleted : Bool
  deriving DecidableEq

/-- What is shown of a conversation. -/
def ConversationRow.shown (id : Uuid) (c : ConversationRow) : Conversation :=
  ⟨id, c.contractorId, c.lastSeq, c.lastMessageAt, c.createdAt⟩

/-- What is shown of a message: a removed one keeps its place, but not its content. -/
def MessageRow.shown (id : Uuid) (m : MessageRow) : Message where
  id := id
  conversationId := m.conversationId
  seq := m.seq
  senderUserId := m.senderUserId
  body := if m.deletedAt.isSome then "[removed]".toList else m.body
  createdAt := m.createdAt
  deleted := m.deletedAt.isSome

/-- The conversation of a message and its place there. -/
def MessageRow.place (m : MessageRow) : Option (Uuid × ℕ) := some (m.conversationId, m.seq)

/-- A pair of accounts, in order. -/
def ordered (a b : Uuid) : Uuid × Uuid := if a < b then (a, b) else (b, a)

/-! ### The store -/

/-- **The database.** -/
structure Db where
  /-- The clock. -/
  clock : Instant := 0
  /-- `conversations`. -/
  conversations : Table ℕ Uuid ConversationRow := .empty
  /-- `conversation_participants`, by conversation and account. -/
  participants : Table ℕ (Uuid × Uuid) Participant := .empty
  /-- `messages`. -/
  messages : Table ℕ Uuid MessageRow := .empty
  /-- `user_blocks`, by who blocks and who is blocked. -/
  blocks : Table ℕ (Uuid × Uuid) Block := .empty

/-- **The queries.** -/
inductive Query : Type → Type 1
  /-- Create a conversation, unless the pair has one. -/
  | createConversation (id : Uuid) (conversation : ConversationRow) : Query Bool
  /-- Add a participant, who may be there already. -/
  | addParticipant (conversationId userId : Uuid) (role : ParticipantRole) : Query Bool
  /-- Take the next place of a conversation, and with it the lock of its row. -/
  | nextSeq (conversationId : Uuid) (now : Instant) : Query (Option ℕ)
  /-- Insert a message. -/
  | insertMessage (id : Uuid) (message : MessageRow) : Query Bool
  /-- Remove a message. -/
  | softDelete (id conversationId sender : Uuid) (now : Instant) : Query (Option Unit)
  /-- Move the read mark of a participant forward. -/
  | markRead (conversationId userId : Uuid) (upToSeq : ℕ) : Query (Option Unit)
  /-- Block somebody. -/
  | block (blocker blocked : Uuid) (reason : Option Text) : Query Unit
  /-- Lift a block. -/
  | unblock (blocker blocked : Uuid) : Query Bool
  /-- Commit the open transaction. -/
  | commit : Query Unit
  /-- Roll the open transaction back. -/
  | rollback : Query Unit

/-- The counter of a conversation, moved on. -/
def ConversationRow.next (now : Instant) (c : ConversationRow) : Option (ℕ × ConversationRow) :=
  some (c.lastSeq + 1, { c with lastSeq := c.lastSeq + 1, lastMessageAt := some now })

/-- A message, removed by its sender. -/
def MessageRow.softDelete (conversationId sender : Uuid) (now : Instant) (m : MessageRow) :
    Option (Unit × MessageRow) :=
  if m.conversationId = conversationId ∧ m.senderUserId = sender ∧ m.deletedAt = none then
    some ((), { m with deletedAt := some now, deletedBy := some sender })
  else none

/-- The read mark of a participant, moved forward. -/
def Participant.markRead (upToSeq : ℕ) (p : Participant) : Option (Unit × Participant) :=
  some ((), { p with lastReadSeq := max p.lastReadSeq upToSeq })

/-- Two conversations of one pair. -/
def ConversationRow.clashes (c c' : ConversationRow) : Bool := c'.dmLo = c.dmLo && c'.dmHi = c.dmHi

/-- Two messages in one place. -/
def MessageRow.clashes (m m' : MessageRow) : Bool :=
  m'.conversationId = m.conversationId && m'.seq = m.seq

/-- Publish what process `i` has written. -/
def Db.commit (i : ℕ) (db : Db) : Db :=
  { db with
    conversations := db.conversations.commit i
    participants := db.participants.commit i
    messages := db.messages.commit i
    blocks := db.blocks.commit i }

/-- Drop what process `i` has written. -/
def Db.rollback (i : ℕ) (db : Db) : Db :=
  { db with
    conversations := db.conversations.rollback i
    participants := db.participants.rollback i
    messages := db.messages.rollback i
    blocks := db.blocks.rollback i }

/-- **What a query does**, on behalf of process `i`. -/
def Query.run {β : Type} : Query β → ℕ → Db → Option (β × Db)
  | .createConversation k c, i, db =>
    (db.conversations.insertUnique .tx i k c.clashes c).map fun p =>
      (p.1, { db with conversations := p.2 })
  | .addParticipant k u role, i, db =>
    (db.participants.modify .tx i (k, u) (Table.inserting { role := role })).map fun p =>
      (p.1, { db with participants := p.2 })
  | .nextSeq k now, i, db =>
    (db.conversations.modify .tx i k (Table.updating (ConversationRow.next now))).map fun p =>
      (p.1, { db with conversations := p.2 })
  | .insertMessage k m, i, db =>
    (db.messages.insertUnique .tx i k m.clashes m).map fun p => (p.1, { db with messages := p.2 })
  | .softDelete k conversationId sender now, i, db =>
    (db.messages.modify .auto i k
      (Table.updating (MessageRow.softDelete conversationId sender now))).map fun p =>
        (p.1, { db with messages := p.2 })
  | .markRead k u upToSeq, i, db =>
    (db.participants.modify .auto i (k, u) (Table.updating (Participant.markRead upToSeq))).map
      fun p => (p.1, { db with participants := p.2 })
  | .block a b reason, i, db =>
    (db.blocks.modify .tx i (a, b) fun _ => ((), some { reason := reason })).map fun p =>
      (p.1, { db with blocks := p.2 })
  | .unblock a b, i, db =>
    (db.blocks.remove .auto i (a, b) fun _ => true).map fun p => (p.1, { db with blocks := p.2 })
  | .commit, i, db => some ((), db.commit i)
  | .rollback, i, db => some ((), db.rollback i)

/-! ### What a query does to each table -/

/-- **What a query can do to a conversation**: create it with no messages, or move its counter
on. -/
inductive ConversationRow.Act : Option ConversationRow → ConversationRow → Prop
  /-- A conversation is created. -/
  | created (c : ConversationRow) (h : c.lastSeq = 0) : Act none c
  /-- The counter is moved on. -/
  | counted (c : ConversationRow) (now : Instant) :
      Act (some c) { c with lastSeq := c.lastSeq + 1, lastMessageAt := some now }

/-- **What a query can do to a message**: insert it, or remove it where it is. -/
inductive MessageRow.Act : Option MessageRow → MessageRow → Prop
  /-- A message is inserted. -/
  | inserted (m : MessageRow) : Act none m
  /-- A message is removed. -/
  | removed (m : MessageRow) (now : Instant) (sender : Uuid) :
      Act (some m) { m with deletedAt := some now, deletedBy := some sender }

theorem MessageRow.act_of_softDelete {o : Option MessageRow} {m : MessageRow}
    {conversationId sender : Uuid} {now : Instant}
    (h : (Table.updating (MessageRow.softDelete conversationId sender now) o).2 = some m) :
    MessageRow.Act o m := by
  obtain ⟨m₀, u, rfl, hm⟩ := Table.updating_cases h
  rw [softDelete] at hm
  split at hm
  · cases hm
    exact .removed m₀ now sender
  · cases hm

/-- A conversation that is created has no messages. -/
def Query.startsEmpty {β : Type} : Query β → Prop
  | .createConversation _ c => c.lastSeq = 0
  | _ => True

/-- **What a query does to the conversations and to the messages.** -/
structure Query.Effects (i : ℕ) (db db' : Db) : Prop where
  /-- Conversations. -/
  conversations :
    Table.Effect (fun _ => ConversationRow.Act) i db.conversations db'.conversations
  /-- Messages. -/
  messages : Table.Effect (fun _ => MessageRow.Act) i db.messages db'.messages

theorem Query.effects {β : Type} {q : Query β} {i : ℕ} {db db' : Db} {b : β}
    (hq : q.startsEmpty) (h : q.run i db = some (b, db')) : Query.Effects i db db' := by
  cases q with
  | createConversation k c =>
    obtain ⟨⟨b', t⟩, ht, he⟩ := Option.map_eq_some_iff.mp h
    cases he
    exact ⟨Table.effect_of_insertUnique ht fun _ => .created c hq, .keep _⟩
  | addParticipant k u role =>
    obtain ⟨⟨b', t⟩, -, he⟩ := Option.map_eq_some_iff.mp h
    cases he
    exact ⟨.keep _, .keep _⟩
  | nextSeq k now =>
    obtain ⟨⟨b', t⟩, ht, he⟩ := Option.map_eq_some_iff.mp h
    cases he
    refine ⟨Table.effect_of_modify ht fun c' hc' => ?_, .keep _⟩
    obtain ⟨c, s, hrow, hc⟩ := Table.updating_cases hc'
    cases hc
    rw [hrow]
    exact .counted c now
  | insertMessage k m =>
    obtain ⟨⟨b', t⟩, ht, he⟩ := Option.map_eq_some_iff.mp h
    cases he
    exact ⟨.keep _, Table.effect_of_insertUnique ht fun _ => .inserted m⟩
  | softDelete k conversationId sender now =>
    obtain ⟨⟨b', t⟩, ht, he⟩ := Option.map_eq_some_iff.mp h
    cases he
    exact ⟨.keep _, Table.effect_of_modify ht fun m hm => MessageRow.act_of_softDelete hm⟩
  | markRead k u upToSeq =>
    obtain ⟨⟨b', t⟩, -, he⟩ := Option.map_eq_some_iff.mp h
    cases he
    exact ⟨.keep _, .keep _⟩
  | block a b reason =>
    obtain ⟨⟨b', t⟩, -, he⟩ := Option.map_eq_some_iff.mp h
    cases he
    exact ⟨.keep _, .keep _⟩
  | unblock a b =>
    obtain ⟨⟨b', t⟩, -, he⟩ := Option.map_eq_some_iff.mp h
    cases he
    exact ⟨.keep _, .keep _⟩
  | commit =>
    cases h
    exact ⟨.commit _, .commit _⟩
  | rollback =>
    cases h
    exact ⟨.rollback _, .rollback _⟩

end Messaging

end Marketplace
