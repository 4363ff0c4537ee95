import Marketplace.Messaging.Store
import Mathlib.Data.List.Sort

/-!
# The messaging service

What the requests do: starting a conversation from either side, sending, polling, removing a
message, marking as read, blocking and lifting a block. Each is a program of statements; a
transaction is committed when its body succeeds and rolled back when it fails.

Who may start a conversation depends on listings and postings, which other parts of the
marketplace change at any time. They come as a `Marketplace.Messaging.Env`, which answers as
it pleases whenever it is asked.
-/

namespace Marketplace

namespace Messaging

open ReadCommitted

/-- A listing, as far as messaging is concerned. -/
structure MessagingTarget where
  /-- Who has claimed it. -/
  claimedByUserId : Option Uuid
  /-- Whether they accept messages. -/
  acceptsDm : Bool

/-- **The other parts of the marketplace**: what they answer a process, at a time. -/
structure Env where
  /-- `contractors::messaging_target`. -/
  messagingTarget : ℕ → Instant → Uuid → Option MessagingTarget
  /-- `contractors::claimed_by`. -/
  claimedBy : ℕ → Instant → Uuid → Option Uuid
  /-- `jobs::open_job_poster`. -/
  openJobPoster : ℕ → Instant → Uuid → Option Uuid

/-- Ceiling on one page of messages. -/
def maxPage : ℤ := 100

/-- What a request is answered with. -/
inductive Response
  /-- The request is done. -/
  | done
  /-- The conversation of the pair. -/
  | conversation (conversation : Conversation)
  /-- The message that was sent. -/
  | message (message : Message)
  /-- A page of messages, and where to resume. -/
  | page (messages : List Message) (nextSeq : ℕ)
  /-- Whether there was a block to lift. -/
  | unblocked (lifted : Bool)
  deriving DecidableEq

/-- A program of the messaging service. -/
abbrev Serving (α : Type) : Type 1 := Action ℕ Db Query AppError α

/-- The time. -/
def clock : Serving Instant := .look fun _ db => db.clock

/-- A transaction; its body is told when it began. -/
def inTransaction {α : Type} (body : Instant → Serving α) : Serving α :=
  .transaction .commit .rollback do
    let now ← clock
    body now

/-! ### The repository layer -/

/-- `messaging::is_participant`. -/
def isParticipant (conversationId userId : Uuid) : Serving Bool :=
  .look fun j db => (db.participants.row j (conversationId, userId)).isSome

/-- `messaging::counterpart`. -/
def counterpart (conversationId userId : Uuid) : Serving (Option Uuid) :=
  .look fun j db =>
    (db.participants.scan j fun k _ => k.1 = conversationId && k.2 ≠ userId).head?.map Prod.snd

/-- `messaging::blocked_either_way`. -/
def blockedEitherWay (a b : Uuid) : Serving Bool :=
  .look fun j db => (db.blocks.row j (a, b)).isSome || (db.blocks.row j (b, a)).isSome

/-- The conversation of a pair, as process `j` sees it. -/
def conversationOf (pair : Uuid × Uuid) (j : ℕ) (db : Db) : Option Conversation :=
  (db.conversations.scan j fun _ c => c.dmLo = pair.1 && c.dmHi = pair.2).head?.bind fun k =>
    (db.conversations.row j k).map (ConversationRow.shown k)

/-- `messaging::find_or_create_dm`. The new row has the identifier `i`. -/
def findOrCreateDm (i : ℕ) (initiator recipient : Uuid) (contractorId jobId : Option Uuid)
    (now : Instant) : Serving Conversation :=
  if initiator = recipient then throw (.invalid "You cannot start a conversation with yourself.")
  else do
    let pair := ordered initiator recipient
    let inserted ← Action.query (.createConversation i
      { contractorId := contractorId, jobId := jobId, dmLo := pair.1, dmHi := pair.2
        createdBy := initiator, createdAt := now })
    let found ← Action.look (conversationOf pair)
    match found with
    | none => throw (.internal "row not found")
    | some conversation =>
      if inserted then do
        let _ ← Action.query (.addParticipant conversation.id initiator .initiator)
        let _ ← Action.query (.addParticipant conversation.id recipient .recipient)
        pure conversation
      else pure conversation

/-- `messaging::send` of the repository layer. The new row has the identifier `i`. -/
def append (i : ℕ) (conversationId sender : Uuid) (body : Text) (now : Instant) :
    Serving Message := do
  let seq ← Action.query (.nextSeq conversationId now)
  match seq with
  | none => throw (.internal "row not found")
  | some seq => do
    let row : MessageRow :=
      { conversationId := conversationId, seq := seq, senderUserId := sender, body := body
        createdAt := now }
    let inserted ← Action.query (.insertMessage i row)
    if inserted then pure (row.shown i) else throw (.internal "duplicate key")

/-- `messaging::after_seq`, as process `j` sees it: the messages after a place, in order, as
many as the limit allows. -/
def afterSeq (conversationId : Uuid) (after : ℕ) (limit : ℤ) (j : ℕ) (db : Db) : List Message :=
  let found := db.messages.keys.filterMap fun k =>
    ((db.messages.row j k).filter fun m => m.conversationId = conversationId && after < m.seq).map
      (MessageRow.shown k)
  (found.insertionSort fun m m' => m.seq ≤ m'.seq).take (max 1 (min limit 100)).toNat

/-! ### Requests -/

section Requests

variable (env : Env) (i : ℕ)

/-- **Open a conversation with a contractor.** -/
def startWithContractor (initiator contractorId : Uuid) : Serving Response :=
  inTransaction fun now => do
    let target ← Action.look fun j db => env.messagingTarget j db.clock contractorId
    match target with
    | none => throw .notFound
    | some target =>
      match target.claimedByUserId with
      | none => throw .forbidden
      | some owner =>
        if !target.acceptsDm then throw .forbidden
        else if owner = initiator then
          throw (.invalid "You cannot start a conversation with your own listing.")
        else do
          let blocked ← blockedEitherWay initiator owner
          if blocked then throw .forbidden
          else do
            let conversation ← findOrCreateDm i initiator owner (some contractorId) none now
            pure (.conversation conversation)

/-- **Open a conversation with the homeowner who posted a job.** -/
def startWithJob (initiator jobId : Uuid) : Serving Response :=
  inTransaction fun now => do
    let contractor ← Action.look fun j db => env.claimedBy j db.clock initiator
    match contractor with
    | none => throw .forbidden
    | some contractorId => do
      let poster ← Action.look fun j db => env.openJobPoster j db.clock jobId
      match poster with
      | none => throw .notFound
      | some poster =>
        if poster = initiator then
          throw (.invalid "You cannot start a conversation with your own job.")
        else do
          let blocked ← blockedEitherWay initiator poster
          if blocked then throw .forbidden
          else do
            let conversation ←
              findOrCreateDm i initiator poster (some contractorId) (some jobId) now
            pure (.conversation conversation)

/-- **Send a message into an existing conversation.** -/
def send (conversationId sender : Uuid) (body : Text) : Serving Response :=
  let body := trim body
  if body.isEmpty then throw (.invalid "A message cannot be empty.")
  else if body.length > 4000 then throw (.invalid "A message must be under 4000 characters.")
  else inTransaction fun now => do
    let participant ← isParticipant conversationId sender
    if !participant then throw .notFound
    else do
      let other ← counterpart conversationId sender
      let blocked ← match other with
        | some other => blockedEitherWay sender other
        | none => pure false
      if blocked then throw .forbidden
      else do
        let message ← append i conversationId sender body now
        pure (.message message)

/-- **Poll a conversation**: a page of messages, and where to resume, which is where the client
was when nothing new arrived. -/
def poll (conversationId userId : Uuid) (afterSeq? : Option ℤ) (limit : Option ℤ) :
    Serving Response := do
  let after := (afterSeq?.getD 0).toNat
  let participant ← isParticipant conversationId userId
  if !participant then throw .notFound
  else do
    let messages ← Action.look
      (afterSeq conversationId after (max 1 (min (limit.getD maxPage) maxPage)))
    pure (.page messages ((messages.getLast?.map Message.seq).getD after))

/-- **Remove a message you sent.** -/
def deleteMessage (conversationId messageId sender : Uuid) : Serving Response := do
  let participant ← isParticipant conversationId sender
  if !participant then throw .notFound
  else do
    let now ← clock
    let removed ← Action.query (.softDelete messageId conversationId sender now)
    if removed.isSome then pure .done else throw .notFound

/-- **Mark a conversation as read.** -/
def markRead (conversationId userId : Uuid) (upToSeq : ℤ) : Serving Response := do
  let participant ← isParticipant conversationId userId
  if !participant then throw .notFound
  else do
    let _ ← Action.query (.markRead conversationId userId upToSeq.toNat)
    pure .done

/-- **Block someone.** -/
def block (blocker blocked : Uuid) (reason : Option Text) : Serving Response :=
  inTransaction fun _ => do
    if blocker = blocked then throw (.invalid "You cannot block yourself.")
    else do
      Action.query (.block blocker blocked reason)
      pure .done

/-- **Lift a block.** -/
def unblock (blocker blocked : Uuid) : Serving Response := do
  let lifted ← Action.query (.unblock blocker blocked)
  pure (.unblocked lifted)

end Requests

/-! ### The system -/

/-- A request. -/
inductive Request
  | startWithContractor (initiator contractorId : Uuid)
  | startWithJob (initiator jobId : Uuid)
  | send (conversationId sender : Uuid) (body : Text)
  | poll (conversationId userId : Uuid) (afterSeq limit : Option ℤ)
  | deleteMessage (conversationId messageId sender : Uuid)
  | markRead (conversationId userId : Uuid) (upToSeq : ℤ)
  | block (blocker blocked : Uuid) (reason : Option Text)
  | unblock (blocker blocked : Uuid)
  deriving DecidableEq

variable (env : Env)

/-- The program of a request, at process `i`. -/
def serve (i : ℕ) : Request → Serving Response
  | .startWithContractor initiator contractorId => startWithContractor env i initiator contractorId
  | .startWithJob initiator jobId => startWithJob env i initiator jobId
  | .send conversationId sender body => send i conversationId sender body
  | .poll conversationId userId afterSeq limit => poll conversationId userId afterSeq limit
  | .deleteMessage conversationId messageId sender => deleteMessage conversationId messageId sender
  | .markRead conversationId userId upToSeq => markRead conversationId userId upToSeq
  | .block blocker blocked reason => block blocker blocked reason
  | .unblock blocker blocked => unblock blocker blocked

/-- **The messaging service**, as a system. -/
def messagingService : System ℕ Db Request (Except AppError Response) Query where
  run := Query.run
  rollback := .rollback
  tick := fun n db => { db with clock := db.clock + n }
  program := fun i r => (serve env i r).run

theorem messagingService_run {β : Type} {q : Query β} {i : ℕ} {db : Db} :
    (messagingService env).run q i db = q.run i db :=
  rfl

end Messaging

end Marketplace
