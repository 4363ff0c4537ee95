import Marketplace.Messaging.Footprint
import Marketplace.Messaging.Polling
import Marketplace.ReadCommitted.Answers
import Marketplace.ReadCommitted.Tally
import Marketplace.Sql.OrderBy

/-!
# Read marks

How many messages a participant has not read is the difference between the counter of the
conversation and the mark of the participant, and zero when the mark is ahead
(`Marketplace.Messaging.unread`). The mark is moved to whatever number the client names, if that
is not behind it: a client that names a place which nobody has taken yet hides the messages that
will be sent there (`Marketplace.Messaging.not_always_inside`).

A mark that is only moved to places within the log
(`Marketplace.Messaging.WithinLog`) stays within it, and then the difference is the number of
messages after the mark (`Marketplace.Messaging.readMarks_inside`).
-/

namespace Marketplace

namespace Messaging

open ReadCommitted

variable {env : Env} {i j : ℕ} {db db' : Db} {k u : Uuid} {β : Type}

/-! ### The list of conversations -/

/-- A conversation in the list of a participant. -/
structure ConversationSummary where
  /-- The row. -/
  id : Uuid
  /-- The listing it is about. -/
  contractorId : Option Uuid
  /-- The other participant. -/
  counterpartUserId : Option Uuid
  /-- The place of the last message. -/
  lastSeq : ℕ
  /-- The last place that was read. -/
  lastReadSeq : ℕ
  /-- How many messages were not. -/
  unread : ℤ
  /-- When the last message was sent. -/
  lastMessageAt : Option Instant

/-- `GREATEST(c.last_seq - p.last_read_seq, 0)`. -/
def unread (c : ConversationRow) (p : Participant) : ℤ :=
  max ((c.lastSeq : ℤ) - p.lastReadSeq) 0

/-- The other participants of a conversation, or nobody. -/
def others (conversationId userId : Uuid) (j : ℕ) (db : Db) : List (Option Uuid) :=
  let found := db.participants.scan j fun k _ => k.1 = conversationId && k.2 ≠ userId
  if found.isEmpty then [none] else found.map fun k => some k.2

/-- The rows of the list that one participation gives. -/
def summaries (userId : Uuid) (j : ℕ) (db : Db) (k : Uuid × Uuid) : List ConversationSummary :=
  match db.participants.row j k, db.conversations.row j k.1 with
  | some p, some c => (others k.1 userId j db).map fun other =>
    { id := k.1, contractorId := c.contractorId, counterpartUserId := other, lastSeq := c.lastSeq
      lastReadSeq := p.lastReadSeq, unread := unread c p, lastMessageAt := c.lastMessageAt }
  | _, _ => []

/-- `messaging::list_for_user`, as process `j` sees it. -/
def listForUser (userId : Uuid) (limit : ℤ) (j : ℕ) (db : Db) : List ConversationSummary :=
  let found := (db.participants.scan j fun k _ => k.2 = userId).flatMap (summaries userId j db)
  (Sql.orderBy (compareLex (Sql.descNullsLast ConversationSummary.lastMessageAt)
    (Sql.asc ConversationSummary.id)) found).take (max 1 (min limit 100)).toNat

/-! ### What is done to a participant -/

/-- The mark has not gone back. -/
def Participant.Forward (o o' : Option Participant) : Prop :=
  ∀ p, o = some p → ∃ p', o' = some p' ∧ p.lastReadSeq ≤ p'.lastReadSeq

theorem Participant.Forward.refl (o : Option Participant) : Forward o o :=
  fun p hp => ⟨p, hp, le_rfl⟩

theorem Participant.Forward.trans (o₁ o₂ o₃ : Option Participant) (h : Forward o₁ o₂)
    (h' : Forward o₂ o₃) : Forward o₁ o₃ := by
  intro p hp
  obtain ⟨p₂, hp₂, hle⟩ := h p hp
  obtain ⟨p₃, hp₃, hle'⟩ := h' p₂ hp₂
  exact ⟨p₃, hp₃, hle.trans hle'⟩

/-- **A mark is moved within the log**: no further than the last message. -/
def WithinLog : Proviso ℕ Db Query := fun {_} _ q db =>
  match q with
  | .markRead k u upToSeq =>
    (db.participants.slot (k, u)).committed.isSome = true → upToSeq ≤ lastSeqOf k db
  | _ => True

/-- **The marks of a database**: a participant is added by an open transaction, and has read
nothing; and a published mark is within the log. -/
structure Db.Marked (db : Db) : Prop where
  /-- Participants on their way. -/
  added : ∀ {k j v}, (db.participants.slot k).lock = some (j, v) →
    (db.participants.slot k).committed = none ∧ ∃ role, v = some { role := role }
  /-- Published participants. -/
  inside : ∀ {k u p}, (db.participants.slot (k, u)).committed = some p →
    p.lastReadSeq ≤ lastSeqOf k db

section Steps

variable {q : Query β} {r : β}

/-- **A step that moves marks within the log keeps them there**, and moves none back. -/
theorem Db.Marked.run (h : db.Marked) (hlog : db.log) (hq : q.startsEmpty)
    (hC : WithinLog i q db) (hr : q.run i db = some (r, db')) :
    db'.Marked ∧ Table.Grown Participant.Forward db.participants db'.participants := by
  have hgrows : ∀ k, lastSeqOf k db ≤ lastSeqOf k db' :=
    fun k => lastSeqOf_le (logStep_of_run hq hlog hr).grows
  have hsame : db'.participants = db.participants →
      db'.Marked ∧ Table.Grown Participant.Forward db.participants db'.participants := by
    intro heq
    refine ⟨⟨fun hlock => ?_, fun hp => ?_⟩, fun k => heq ▸ Participant.Forward.refl _⟩
    · rw [heq] at hlock ⊢
      exact h.added hlock
    · rw [heq] at hp
      exact (h.inside hp).trans (hgrows _)
  -- the end of a transaction publishes participants who have read nothing
  have hend : (∀ p, ((db'.participants.slot p) = db.participants.slot p) ∨
        (db'.participants.slot p).lock = none ∧
          ((db'.participants.slot p).committed = (db.participants.slot p).committed ∨
            (db.participants.slot p).committed = none ∧
              ∃ role, (db'.participants.slot p).committed = some { role := role })) →
      db'.Marked ∧ Table.Grown Participant.Forward db.participants db'.participants := by
    intro hslots
    refine ⟨⟨fun {p j v} hlock => ?_, fun {k u p} hp => ?_⟩, fun p => ?_⟩
    · rcases hslots p with heq | ⟨hnone, -⟩
      · rw [heq] at hlock ⊢
        exact h.added hlock
      · rw [hnone] at hlock
        cases hlock
    · rcases hslots (k, u) with heq | ⟨-, heq | ⟨-, role, heq⟩⟩
      · rw [heq] at hp
        exact (h.inside hp).trans (hgrows k)
      · rw [heq] at hp
        exact (h.inside hp).trans (hgrows k)
      · rw [heq] at hp
        cases hp
        exact Nat.zero_le _
    · rcases hslots p with heq | ⟨-, heq | ⟨hnone, -⟩⟩
      · rw [heq]
        exact Participant.Forward.refl _
      · rw [heq]
        exact Participant.Forward.refl _
      · rw [hnone]
        exact nofun
  cases q with
  | createConversation | nextSeq | insertMessage | softDelete | block | unblock =>
    obtain ⟨p, -, he⟩ := Option.map_eq_some_iff.mp hr
    cases he
    exact hsame rfl
  | addParticipant k u role =>
    obtain ⟨⟨b, t⟩, hp, he⟩ := Option.map_eq_some_iff.mp hr
    cases he
    obtain ⟨hfree, -, ⟨-, rfl⟩ | ⟨p, hnew, rfl⟩⟩ := Table.modify_cases hp
    · exact hsame rfl
    obtain ⟨hrow, rfl⟩ := Table.inserting_cases hnew
    have hcommitted : (db.participants.slot (k, u)).committed = none := by
      rcases Slot.lock_eq_of_freeFor hfree with hnone | ⟨v, hv⟩
      · rw [← hrow, Table.row, Slot.visible_of_unlocked hnone]
      · exact (h.added hv).1
    refine ⟨⟨fun {p j v} hlock => ?_, fun {k' u' p} hp' => ?_⟩, fun p => ?_⟩
    · rcases eq_or_ne p (k, u) with rfl | hne
      · rw [Table.slot_put_self] at hlock ⊢
        obtain ⟨-, rfl, -⟩ := Slot.lock_put hlock
        exact ⟨hcommitted, role, rfl⟩
      · rw [Table.slot_put_of_ne hne] at hlock ⊢
        exact h.added hlock
    · rw [Table.committed_modify hp] at hp'
      exact h.inside hp'
    · rw [Table.committed_modify hp]
      exact Participant.Forward.refl _
  | markRead k u upToSeq =>
    obtain ⟨⟨b, t⟩, hp, he⟩ := Option.map_eq_some_iff.mp hr
    cases he
    have hnone := Table.unlocked_of_auto hp
    obtain ⟨-, -, ⟨-, rfl⟩ | ⟨p, hnew, rfl⟩⟩ := Table.modify_cases hp
    · exact hsame rfl
    obtain ⟨p₀, b', hrow, hmark⟩ := Table.updating_cases hnew
    cases hmark
    have hcommitted : (db.participants.slot (k, u)).committed = some p₀ := by
      rw [← hrow, Table.row, Slot.visible_of_unlocked hnone]
    refine ⟨⟨fun {p j v} hlock => ?_, fun {k' u' p} hp' => ?_⟩, fun p => ?_⟩
    · rcases eq_or_ne p (k, u) with rfl | hne
      · rw [Table.slot_put_self] at hlock
        cases hlock
      · rw [Table.slot_put_of_ne hne] at hlock ⊢
        exact h.added hlock
    · by_cases hp : (k', u') = (k, u)
      · obtain ⟨rfl, rfl⟩ := Prod.mk.inj hp
        rw [Table.slot_put_self] at hp'
        cases hp'
        have hle : upToSeq ≤ lastSeqOf k' db := hC (by rw [hcommitted]; rfl)
        exact max_le (h.inside hcommitted) hle
      · rw [Table.slot_put_of_ne hp] at hp'
        exact h.inside hp'
    · rcases eq_or_ne p (k, u) with rfl | hne
      · rw [Table.slot_put_self, hcommitted]
        intro p₁ hp₁
        cases hp₁
        exact ⟨_, rfl, le_max_left _ _⟩
      · rw [Table.slot_put_of_ne hne]
        exact Participant.Forward.refl _
  | commit =>
    cases hr
    refine hend fun p => ?_
    rcases hlock : (db.participants.slot p).lock with _ | ⟨j, v⟩
    · exact Or.inl (Slot.commit_of_unlocked hlock)
    · rcases eq_or_ne j i with rfl | hne
      · obtain ⟨hnone, role, rfl⟩ := h.added hlock
        have hslot : (db.commit j).participants.slot p = { committed := some { role := role } } :=
          Slot.commit_of_held hlock
        rw [hslot]
        exact Or.inr ⟨rfl, Or.inr ⟨hnone, role, rfl⟩⟩
      · exact Or.inl (Slot.commit_of_other hlock hne)
  | rollback =>
    cases hr
    refine hend fun p => ?_
    rcases hlock : (db.participants.slot p).lock with _ | ⟨j, v⟩
    · exact Or.inl (Slot.rollback_of_unlocked hlock)
    · rcases eq_or_ne j i with rfl | hne
      · have hslot : (db.rollback j).participants.slot p =
            { committed := (db.participants.slot p).committed } := Slot.rollback_of_held hlock
        rw [hslot]
        exact Or.inr ⟨rfl, Or.inl rfl⟩
      · exact Or.inl (Slot.rollback_of_other hlock hne)

end Steps

/-! ### How many messages are after the mark -/

/-- **The messages after a place are as many as the places up to the counter.** -/
theorem tally_after (h : db.log) (after : ℕ) :
    db.messages.tally (fun m => m.conversationId = k && after < m.seq) =
      lastSeqOf k db - after := by
  let place := fun l => (((db.messages.slot l).committed).filter fun m =>
    m.conversationId = k && after < m.seq).map MessageRow.seq
  have hplace : ∀ l s, s ∈ place l ↔
      db.messages.Published MessageRow.place l (k, s) ∧ after < s := by
    intro l s
    simp only [place, Option.mem_def, Option.map_eq_some_iff, Option.filter_eq_some_iff,
      Bool.and_eq_true, decide_eq_true_eq]
    constructor
    · rintro ⟨m, ⟨hm, hconv, hlt⟩, rfl⟩
      exact ⟨⟨m, hm, MessageRow.place_eq_some.mpr ⟨hconv, rfl⟩⟩, hlt⟩
    · rintro ⟨⟨m, hm, hat⟩, hlt⟩
      obtain ⟨hconv, rfl⟩ := MessageRow.place_eq_some.mp hat
      exact ⟨m, ⟨hm, hconv, hlt⟩, rfl⟩
  have hlength := (perm_places h hplace).length_eq
  rw [List.length_range', List.length_filterMap_eq_countP] at hlength
  rw [Table.tally, ← hlength]
  refine List.countP_congr fun l _ => ?_
  rcases hm : (db.messages.slot l).committed with _ | m
  · simp [place, hm]
  · simp [place, hm, Option.filter_some]

/-! ### Whole runs -/

section Runs

variable {C : Proviso ℕ Db Query} {c d : Pool}

theorem marked_of_reachable (h : Reachable (messagingService env) WithinLog (.initial {}) c) :
    c.db.Marked := by
  have hempty : Db.Marked {} := ⟨nofun, nofun⟩
  refine invariant_beside Db.log Db.Marked each_program (orderly_rollback env)
    (fun hc => (tracked_of_reachable hc.any).1) (fun q i db b db' hlog h hq hC hr => ?_)
    (fun _ _ h => ⟨h.added, h.inside⟩) hempty h
  exact (h.run hlog hq.starts hC hr).1

theorem forward_of_reachable (hc : Reachable (messagingService env) WithinLog (.initial {}) c)
    (h : Reachable (messagingService env) WithinLog c d) :
    Table.Grown Participant.Forward c.db.participants d.db.participants := by
  refine rel_beside (fun db => db.log ∧ db.Marked)
    (fun db db' => Table.Grown Participant.Forward db.participants db'.participants)
    (fun _ _ => Participant.Forward.refl _) (fun _ _ _ h h' k => .trans _ _ _ (h k) (h' k))
    each_program (orderly_rollback env)
    (fun hc => ⟨(tracked_of_reachable hc.any).1, marked_of_reachable hc⟩)
    (fun q i db b db' hknown hq hC hr => ?_) (fun _ _ _ => Participant.Forward.refl _) hc h
  exact (hknown.2.run hknown.1 hq.starts hC hr).2

/-- A process that is not used sees what is published. -/
theorem row_of_idle (h : Reachable (messagingService env) C (.initial {}) c)
    (hj : c.procs j = .idle) :
    (∀ k, c.db.conversations.row j k = (c.db.conversations.slot k).committed) ∧
      ∀ p, c.db.participants.row j p = (c.db.participants.slot p).committed := by
  have hfree : Free j c.db.conversations := (tracked_of_reachable h.any).2.idle j hj
  have hnone : ∀ p v, (c.db.participants.slot p).lock ≠ some (j, v) := by
    have hempty : ∀ i p v, (({} : Db).participants.slot p).lock ≠ some (i, v) :=
      fun _ _ _ => nofun
    refine free_of_reachable (fun j db => ∀ p v, (db.participants.slot p).lock ≠ some (j, v))
      (fun i db db' hr p v hlock => ?_) (fun q i j db b db' hne hr hfree p v hlock => ?_)
      (fun _ _ _ h => h) hempty h j fun r p hrun => ?_
    · cases hr
      exact (Slot.lock_of_rollback hlock).1 rfl
    · exact hfree p v ((participants_moves hr p).lock_of_other hlock hne.symm)
    · rw [hj] at hrun
      cases hrun
  constructor
  · intro k
    exact (Slot.visible_cases j (c.db.conversations.slot k)).resolve_left (hfree k _)
  · intro p
    exact (Slot.visible_cases j (c.db.participants.slot p)).resolve_left (hnone p _)

/-- A conversation in a list comes from a participation and from its conversation. -/
theorem summary_cases {limit : ℤ} {s : ConversationSummary} (h : s ∈ listForUser u limit j db) :
    ∃ row p, db.conversations.row j s.id = some row ∧ db.participants.row j (s.id, u) = some p ∧
      s.lastReadSeq = p.lastReadSeq ∧ s.lastSeq = row.lastSeq ∧ s.unread = unread row p := by
  obtain ⟨⟨k, u'⟩, hk, hs⟩ := List.mem_flatMap.mp
    ((Sql.mem_orderBy _).mp (List.mem_of_mem_take h))
  obtain ⟨p, hp, hu⟩ := Table.mem_scan.mp hk
  obtain rfl : u' = u := of_decide_eq_true hu
  rw [summaries, hp] at hs
  rcases hrow : db.conversations.row j k with _ | row
  · rw [hrow] at hs
    cases hs
  · rw [hrow] at hs
    obtain ⟨other, -, rfl⟩ := List.mem_map.mp hs
    exact ⟨row, p, hrow, hp, rfl, rfl, rfl⟩

/-- **The read marks of a configuration are in order**: within the log, never to move back, with
every later message after them, and each list says how many messages are after the mark. -/
structure ReadMarks (env : Env) (C : Proviso ℕ Db Query) (c : Pool) : Prop where
  /-- A mark is within the log. -/
  inside : ∀ k u p, (c.db.participants.slot (k, u)).committed = some p →
    p.lastReadSeq ≤ lastSeqOf k c.db
  /-- It does not move back. -/
  forward : ∀ d, Reachable (messagingService env) C c d → ∀ k u p,
    (c.db.participants.slot (k, u)).committed = some p →
      ∃ p', (d.db.participants.slot (k, u)).committed = some p' ∧ p.lastReadSeq ≤ p'.lastReadSeq
  /-- What is sent later comes after it. -/
  later : ∀ d, Reachable (messagingService env) C c d → ∀ k u p,
    (c.db.participants.slot (k, u)).committed = some p → ∀ l m,
      (c.db.messages.slot l).committed = none → (d.db.messages.slot l).committed = some m →
        m.conversationId = k → p.lastReadSeq < m.seq
  /-- The list of a participant counts what comes after it. -/
  counted : ∀ j, c.procs j = .idle → ∀ u limit, ∀ s ∈ listForUser u limit j c.db,
    s.unread = (c.db.messages.tally fun m => m.conversationId = s.id && s.lastReadSeq < m.seq : ℕ)

/-- **Marks that are moved within the log stay within it**, and every message that is sent after
such a move counts as unread until the mark has passed it. -/
theorem readMarks_inside (hc : Reachable (messagingService env) WithinLog (.initial {}) c) :
    ReadMarks env WithinLog c := by
  have hmarked := marked_of_reachable hc
  have hlog := (tracked_of_reachable hc.any).1
  refine ⟨fun k u p => hmarked.inside, fun d hd k u p hp => forward_of_reachable hc hd _ p hp,
    fun d hd k u p hp l m hnone hm hconv => ?_, fun j hj u limit s hs => ?_⟩
  · -- the places up to the mark are taken by messages that were there
    have hlog' := (tracked_of_reachable (hc.any.trans hd.any)).1
    have hat : d.db.messages.Published MessageRow.place l (k, m.seq) :=
      ⟨m, hm, MessageRow.place_eq_some.mpr ⟨hconv, rfl⟩⟩
    obtain ⟨hone, -⟩ := (published_iff hlog').mp ⟨l, hat⟩
    by_contra hle
    have hold : 1 ≤ m.seq ∧ m.seq ≤ lastSeqOf k c.db := by
      have := hmarked.inside hp
      omega
    obtain ⟨l', hl'⟩ := (published_iff hlog).mpr hold
    have hsame := hlog'.unique.published hat
      (published_of_grown (grows_of_reachable hc.any hd.any).messages hl')
    subst hsame
    obtain ⟨m', hm', -⟩ := hl'
    rw [hnone] at hm'
    cases hm'
  · obtain ⟨row, p, hrow, hp, hread, hseq, hunread⟩ := summary_cases hs
    obtain ⟨hconversations, hparticipants⟩ := row_of_idle hc hj
    rw [hconversations] at hrow
    rw [hparticipants] at hp
    have hlast : lastSeqOf s.id c.db = row.lastSeq := by
      rw [lastSeqOf, hrow]
      rfl
    have hinside := hmarked.inside hp
    rw [tally_after hlog, hunread, unread, hread, hlast]
    omega

/-! ### Runs -/

/-- A test that passes only where a mark is moved within the log. -/
def Query.withinLog (db : Db) : {β : Type} → Query β → Bool
  | _, .markRead k _ upToSeq => decide (upToSeq ≤ lastSeqOf k db)
  | _, _ => true

theorem withinLog_of_check {β : Type} (i : ℕ) (q : Query β) (db : Db)
    (h : q.withinLog db = true) : WithinLog i q db := by
  cases q with
  | markRead k u upToSeq => exact fun _ => of_decide_eq_true h
  | createConversation | addParticipant | nextSeq | insertMessage | softDelete | block | unblock
  | commit | rollback => trivial

/-- Account `1` reads the first message of account `0`. -/
theorem readMarks_inside_first :
    ∃ c : Pool, Reachable (messagingService oneOwner) WithinLog (.initial {}) c ∧
      c.Served 2 (.markRead 0 1 1) (.ok .done) ∧ ReadMarks oneOwner WithinLog c := by
  have hrun := exists_of_exec ((messagingService oneOwner).guarded fun _ q db => q.withinLog db)
    (.arrive 0 (.startWithContractor 0 7) :: List.replicate 8 (.run 0) ++
      .arrive 1 (.send 0 0 "hello".toList) :: List.replicate 7 (.run 1) ++
      .arrive 2 (.markRead 0 1 1) :: List.replicate 2 (.run 2))
    (.initial {}) (fun c => decide (c.Served 2 (.markRead 0 1 1) (.ok .done))) (by decide +kernel)
  obtain ⟨c, hc, hserved⟩ := hrun
  have hreach := reachable_of_guarded withinLog_of_check hc
  exact ⟨c, hreach, of_decide_eq_true hserved, readMarks_inside hreach⟩

/-- Account `1` marks ten messages as read, of which only one has been sent. -/
theorem not_always_inside :
    ¬ ∀ c : Pool, Reachable (messagingService oneOwner) anyQuery (.initial {}) c →
      ReadMarks oneOwner anyQuery c := by
  have hrun := exists_of_exec (messagingService oneOwner)
    (.arrive 0 (.startWithContractor 0 7) :: List.replicate 8 (.run 0) ++
      .arrive 1 (.send 0 0 "hello".toList) :: List.replicate 7 (.run 1) ++
      .arrive 2 (.markRead 0 1 10) :: List.replicate 2 (.run 2) ++
      .arrive 3 (.send 0 0 "again".toList) :: List.replicate 7 (.run 3))
    (.initial {})
    (fun c => (c.db.participants.slot (0, 1)).committed.any fun p =>
      decide (lastSeqOf 0 c.db < p.lastReadSeq))
    (by decide +kernel)
  intro hmarks
  obtain ⟨c, hc, hP⟩ := hrun
  obtain ⟨p, hp, hlt⟩ := (Option.any_eq_true _ _).mp hP
  exact absurd ((hmarks c hc).inside 0 1 p hp) (not_le.mpr (of_decide_eq_true hlt))

end Runs

end Messaging

end Marketplace
