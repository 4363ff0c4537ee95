import Marketplace.Messaging.Footprint
import Marketplace.Messaging.Polling

/-!
# Blocks

Every way to reach somebody tests for a block before it writes, in a statement of its own. A
block that is published between the test and the commit is not heeded
(`Marketplace.Messaging.not_always_heeded`).

So what is on its way when a block is published decides. As long as no row is written over a
block that is there already, and no block is published over a row that is on its way
(`Marketplace.Messaging.Undisturbed`), there is never anything on its way between two accounts
one of which has blocked the other, and nothing of the kind is published
(`Marketplace.Messaging.block_heeded`).
-/

namespace Marketplace

namespace Messaging

open ReadCommitted

variable {env : Env} {i j : ℕ} {db db' : Db} {a b k l : Uuid} {β : Type}

/-! ### What is on its way between two accounts -/

/-- One of two accounts has blocked the other, and has not lifted the block. -/
def Db.Blocked (a b : Uuid) (db : Db) : Prop :=
  (db.blocks.slot (a, b)).committed.isSome ∨ (db.blocks.slot (b, a)).committed.isSome

/-- **Process `j` has something on its way between two accounts**: a message in their
conversation, or the conversation itself. -/
def Db.OnTheWay (j : ℕ) (a b : Uuid) (db : Db) : Prop :=
  (∃ l m, db.messages.Draft j l m ∧ (db.messages.slot l).committed = none ∧
    db.pair m.conversationId = some (ordered a b)) ∨
  ∃ k c, db.conversations.Draft j k c ∧ (db.conversations.slot k).committed = none ∧
    c.pair = ordered a b

theorem blocked_comm : db.Blocked a b ↔ db.Blocked b a := or_comm

theorem blocked_ordered : db.Blocked (ordered a b).1 (ordered a b).2 ↔ db.Blocked a b := by
  rw [ordered]
  split
  · rfl
  · exact blocked_comm

theorem onTheWay_comm : db.OnTheWay j a b ↔ db.OnTheWay j b a := by
  rw [Db.OnTheWay, Db.OnTheWay, ordered_comm a b]

/-- What a query puts on its way between two accounts. -/
def Query.Brings (a b : Uuid) (db : Db) : {β : Type} → Query β → Prop
  | _, .createConversation _ c => c.pair = ordered a b
  | _, .insertMessage _ m => db.pair m.conversationId = some (ordered a b)
  | _, _ => False

/-- **A step that a block does not disturb**: nothing is written between two accounts one of which
has blocked the other, and no block is published between two accounts while something is on its
way between them. -/
def Undisturbed : Proviso ℕ Db Query := fun {_} i q db =>
  match q with
  | .createConversation _ c => ¬ db.Blocked c.dmLo c.dmHi
  | .insertMessage _ m =>
    ∀ lo hi, db.pair m.conversationId = some (lo, hi) → ¬ db.Blocked lo hi
  | .commit => ∀ a b r, db.blocks.Draft i (a, b) r → ∀ j, ¬ db.OnTheWay j a b
  | _ => True

/-! ### Steps -/

section Steps

variable {q : Query β} {r : β}

/-- A row that was not published before a query's step. -/
theorem none_of_grown {K R : Type} {f : R → K} {t t' : Table ℕ Uuid R}
    (h : t.Grown (Lasts f) t') (hnone : (t'.slot k).committed = none) :
    (t.slot k).committed = none := by
  rcases hcommitted : (t.slot k).committed with _ | r₀
  · rfl
  · obtain ⟨r', hr', -⟩ := h k r₀ hcommitted
    rw [hnone] at hr'
    cases hr'

/-- A message that process `i` has drafted after its own query was drafted before, or is the one
that the query inserts. -/
theorem message_draft_cases (hr : q.run i db = some (r, db')) {m : MessageRow}
    (hnone : (db'.messages.slot l).committed = none) (hm : db'.messages.Draft i l m) :
    db.messages.Draft i l m ∧ (db.messages.slot l).committed = none ∨
      db'.conversations = db.conversations ∧ ∀ a b,
        db.pair m.conversationId = some (ordered a b) → q.Brings a b db := by
  cases q with
  | createConversation | addParticipant | nextSeq | markRead | block | unblock =>
    obtain ⟨p, -, he⟩ := Option.map_eq_some_iff.mp hr
    cases he
    exact Or.inl ⟨hm, hnone⟩
  | insertMessage k row =>
    obtain ⟨⟨b', t⟩, hp, he⟩ := Option.map_eq_some_iff.mp hr
    cases he
    have hold : (db.messages.slot l).committed = none := by
      rw [← Table.committed_insertUnique hp l]
      exact hnone
    rcases (Table.insertUnique_cases hp).2 with ⟨-, rfl⟩ | ⟨hp, -⟩
    · exact Or.inl ⟨hm, hold⟩
    rcases Table.lock_modify hp hm with hlock | ⟨rfl, row', hrow', he⟩
    · exact Or.inl ⟨hlock, hold⟩
    · obtain ⟨-, rfl⟩ := Table.inserting_cases hrow'
      cases he
      exact Or.inr ⟨rfl, fun _ _ h => h⟩
  | softDelete k conversationId sender now =>
    obtain ⟨⟨b', t⟩, hp, he⟩ := Option.map_eq_some_iff.mp hr
    cases he
    refine Or.inl ⟨Table.lock_modify_auto hp hm, ?_⟩
    rcases Table.modify_cases hp with ⟨-, -, ⟨-, rfl⟩ | ⟨r', hr', rfl⟩⟩
    · exact hnone
    · rcases eq_or_ne l k with rfl | hne
      · rw [Table.slot_put_self] at hnone
        cases hnone
      · rw [Table.slot_put_of_ne hne] at hnone
        exact hnone
  | commit =>
    cases hr
    exact absurd hm Table.not_draft_of_commit
  | rollback =>
    cases hr
    exact absurd hm Table.not_draft_of_rollback

/-- A new conversation that process `i` has drafted after its own query was drafted before, with
the same accounts, or is the one that the query creates. -/
theorem conversation_draft_cases (hr : q.run i db = some (r, db')) {c : ConversationRow}
    (hnone : (db'.conversations.slot k).committed = none) (hc : db'.conversations.Draft i k c) :
    (∃ c₀, db.conversations.Draft i k c₀ ∧ (db.conversations.slot k).committed = none ∧
        c₀.pair = c.pair) ∨
      ∀ a b, c.pair = ordered a b → q.Brings a b db := by
  cases q with
  | addParticipant | insertMessage | softDelete | markRead | block | unblock =>
    obtain ⟨p, -, he⟩ := Option.map_eq_some_iff.mp hr
    cases he
    exact Or.inl ⟨c, hc, hnone, rfl⟩
  | createConversation k' row =>
    obtain ⟨⟨b', t⟩, hp, he⟩ := Option.map_eq_some_iff.mp hr
    cases he
    have hold : (db.conversations.slot k).committed = none := by
      rw [← Table.committed_insertUnique hp k]
      exact hnone
    rcases (Table.insertUnique_cases hp).2 with ⟨-, rfl⟩ | ⟨hp, -⟩
    · exact Or.inl ⟨c, hc, hold, rfl⟩
    rcases Table.lock_modify hp hc with hlock | ⟨rfl, row', hrow', he⟩
    · exact Or.inl ⟨c, hlock, hold, rfl⟩
    · obtain ⟨-, rfl⟩ := Table.inserting_cases hrow'
      cases he
      exact Or.inr fun _ _ h => h
  | nextSeq k' now =>
    obtain ⟨⟨b', t⟩, hp, he⟩ := Option.map_eq_some_iff.mp hr
    cases he
    have hold : (db.conversations.slot k).committed = none := by
      rw [← Table.committed_modify hp k]
      exact hnone
    rcases Table.lock_modify hp hc with hlock | ⟨rfl, row', hrow', he⟩
    · exact Or.inl ⟨c, hlock, hold, rfl⟩
    · obtain ⟨c₀, s, hrow, hnext⟩ := Table.updating_cases hrow'
      cases he
      cases hnext
      exact Or.inl ⟨c₀, Table.draft_of_row hrow hold, hold, rfl⟩
  | commit =>
    cases hr
    exact absurd hc Table.not_draft_of_commit
  | rollback =>
    cases hr
    exact absurd hc Table.not_draft_of_rollback

/-- **What is on its way after a query** was on its way before, or was put there by it. -/
theorem onTheWay_cases (hlog : db.log) (hpairs : db.Paired) (hq : q.startsEmpty)
    (hr : q.run i db = some (r, db')) (h : db'.OnTheWay j a b) :
    db.OnTheWay j a b ∨ q.Brings a b db := by
  have hgrown := (paired_of_run hpairs hq hr).2
  have hstep := logStep_of_run hq hlog hr
  -- the conversation of a message on its way is published, and stays the same
  have hpair : ∀ {l m}, db.messages.Draft j l m → (db.messages.slot l).committed = none →
      db'.pair m.conversationId = some (ordered a b) →
        db.pair m.conversationId = some (ordered a b) := by
    intro l m hdraft hnone hpair
    obtain ⟨c, -, hc, -⟩ := hlog.taken hdraft hnone
    obtain ⟨p, hp⟩ : ∃ p, db.pair m.conversationId = some p := ⟨c.pair, by rw [Db.pair, hc]; rfl⟩
    rw [hp, ← pair_of_grown hp hgrown, hpair]
  have hmessage : ∀ {l}, (db'.messages.slot l).committed = none →
      (db.messages.slot l).committed = none := by
    intro l hnone
    rcases hcommitted : (db.messages.slot l).committed with _ | m₀
    · rfl
    · obtain ⟨m', hm', -⟩ := hstep.grows.messages l m₀ hcommitted
      rw [hnone] at hm'
      cases hm'
  rcases eq_or_ne j i with rfl | hne
  · rcases h with ⟨l, m, hdraft, hnone, hm⟩ | ⟨k, c, hdraft, hnone, hc⟩
    · obtain ⟨hold, hnone⟩ | ⟨hsame, hbrings⟩ := message_draft_cases hr hnone hdraft
      · exact Or.inl (Or.inl ⟨l, m, hold, hnone, hpair hold hnone hm⟩)
      · rw [Db.pair, hsame] at hm
        exact Or.inr (hbrings a b hm)
    · obtain ⟨c₀, hold, hnone, hsame⟩ | hbrings := conversation_draft_cases hr hnone hdraft
      · exact Or.inl (Or.inr ⟨k, c₀, hold, hnone, hsame.trans hc⟩)
      · exact Or.inr (hbrings a b hc)
  · left
    rcases h with ⟨l, m, hdraft, hnone, hm⟩ | ⟨k, c, hdraft, hnone, hc⟩
    · have hold := (Table.draft_iff_of_other hstep.messages hne.symm).mp hdraft
      exact Or.inl ⟨l, m, hold, hmessage hnone, hpair hold (hmessage hnone) hm⟩
    · have hold := (Table.draft_iff_of_other hstep.conversations hne.symm).mp hdraft
      exact Or.inr ⟨k, c, hold, none_of_grown hgrown hnone, hc⟩

/-- **Nothing is on its way when a block is published**, if the step is undisturbed. -/
theorem clear_of_new_block (hC : Undisturbed i q db) (hr : q.run i db = some (r, db'))
    (hnot : ¬ db.Blocked a b) (hblocked : db'.Blocked a b) : ¬ db.OnTheWay j a b := by
  have hsame : db'.blocks = db.blocks → ¬ db.OnTheWay j a b := by
    intro h
    rw [Db.Blocked, h] at hblocked
    exact absurd hblocked hnot
  cases q with
  | createConversation | addParticipant | nextSeq | insertMessage | softDelete | markRead =>
    obtain ⟨p, -, he⟩ := Option.map_eq_some_iff.mp hr
    cases he
    exact hsame rfl
  | block x y reason =>
    obtain ⟨⟨u, t⟩, hp, he⟩ := Option.map_eq_some_iff.mp hr
    cases he
    rw [Db.Blocked, Table.committed_modify hp, Table.committed_modify hp] at hblocked
    exact absurd hblocked hnot
  | unblock x y =>
    obtain ⟨⟨u, t⟩, hp, he⟩ := Option.map_eq_some_iff.mp hr
    cases he
    obtain ⟨-, ⟨-, -, rfl⟩ | ⟨-, -, rfl⟩⟩ := Table.remove_cases hp
    · exact hsame rfl
    · -- a block that is there is not the one that was lifted
      have hold : ∀ p, ((db.blocks.put (x, y) ((db.blocks.slot (x, y)).erase .auto i)).slot
          p).committed.isSome = true → (db.blocks.slot p).committed.isSome = true := by
        intro p hp
        rcases eq_or_ne p (x, y) with rfl | hne
        · rw [Table.slot_put_self] at hp
          cases hp
        · rw [Table.slot_put_of_ne hne] at hp
          exact hp
      exact absurd (hblocked.imp (hold _) (hold _)) hnot
  | commit =>
    cases hr
    have hdraft : ∀ p, ((db.commit i).blocks.slot p).committed.isSome = true →
        (db.blocks.slot p).committed.isSome = true ∨ ∃ v, db.blocks.Draft i p v := by
      intro p hp
      obtain ⟨v, hv⟩ := Option.isSome_iff_exists.mp hp
      rcases Table.committed_of_commit hv with hv | hv
      · exact Or.inr ⟨v, hv⟩
      · exact Or.inl (Option.isSome_iff_exists.mpr ⟨v, hv⟩)
    rcases hblocked with h | h
    · rcases hdraft _ h with h | ⟨v, hv⟩
      · exact absurd (Or.inl h) hnot
      · exact hC a b v hv j
    · rcases hdraft _ h with h | ⟨v, hv⟩
      · exact absurd (Or.inr h) hnot
      · rw [onTheWay_comm]
        exact hC b a v hv j
  | rollback =>
    cases hr
    have hold : ∀ p, ((db.rollback i).blocks.slot p).committed = (db.blocks.slot p).committed :=
      fun p => Slot.rollback_committed
    rw [Db.Blocked, hold, hold] at hblocked
    exact absurd hblocked hnot

/-- What a query puts on its way is not between accounts one of which has blocked the other, if
the step is undisturbed. -/
theorem not_blocked_of_brings (hC : Undisturbed i q db) (hr : q.run i db = some (r, db'))
    (h : q.Brings a b db) : ¬ db'.Blocked a b := by
  cases q with
  | createConversation k c =>
    obtain ⟨p, -, he⟩ := Option.map_eq_some_iff.mp hr
    cases he
    have hnot : ¬ db.Blocked c.pair.1 c.pair.2 := hC
    rw [show c.pair = ordered a b from h, blocked_ordered] at hnot
    exact hnot
  | insertMessage k m =>
    obtain ⟨p, -, he⟩ := Option.map_eq_some_iff.mp hr
    cases he
    have hnot : ¬ db.Blocked (ordered a b).1 (ordered a b).2 := hC _ _ h
    rw [blocked_ordered] at hnot
    exact hnot
  | addParticipant | nextSeq | softDelete | markRead | block | unblock | commit | rollback =>
    exact h.elim

/-! ### The invariant -/

/-- **Nothing is on its way between two accounts one of which has blocked the other.** -/
def Db.Heeds (db : Db) : Prop := ∀ a b j, db.Blocked a b → ¬ db.OnTheWay j a b

theorem Db.Heeds.run (h : db.Heeds) (hlog : db.log) (hpairs : db.Paired) (hq : q.startsEmpty)
    (hC : Undisturbed i q db) (hr : q.run i db = some (r, db')) : db'.Heeds := by
  intro a b j hblocked hway
  rcases onTheWay_cases hlog hpairs hq hr hway with hway | hbrings
  · by_cases hold : db.Blocked a b
    · exact h a b j hold hway
    · exact clear_of_new_block hC hr hold hblocked hway
  · exact not_blocked_of_brings hC hr hbrings hblocked

end Steps

/-! ### Whole runs -/

section Runs

variable {C : Proviso ℕ Db Query} {c d : Pool}

/-- One of two accounts has blocked the other, as a test. -/
def Db.blocked (a b : Uuid) (db : Db) : Bool :=
  (db.blocks.slot (a, b)).committed.isSome || (db.blocks.slot (b, a)).committed.isSome

/-- No process holds a row of a table. -/
def unheld {K R : Type} [DecidableEq K] (t : Table ℕ K R) : Bool :=
  t.keys.all fun k => (t.slot k).lock.isNone

end Runs

end Messaging

end Marketplace
