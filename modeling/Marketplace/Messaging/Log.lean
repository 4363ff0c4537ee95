import Marketplace.Messaging.Store

/-!
# The log of a conversation

A send takes a place from the counter of its conversation, and its message is there only
later: between the two the counter is ahead of the log. But it is so in a version that nobody
sees yet and whose row nobody else can write, and both are published together. So what is
published of the log is complete (`Marketplace.Messaging.LogInv`), as long as whoever commits
a counter that was moved on commits the message with it (`Marketplace.Messaging.Paid`).
-/

namespace Marketplace

namespace Messaging

open ReadCommitted

/-- The tables of conversations and of messages. -/
abbrev Conversations : Type := Table ℕ Uuid ConversationRow

/-- The table of messages. -/
abbrev Messages : Type := Table ℕ Uuid MessageRow

/-! ### What rows keep -/

/-- The message stays where it is. -/
def MessageRow.Stays (o o' : Option MessageRow) : Prop :=
  ∀ m, o = some m → ∃ m', o' = some m' ∧ m'.place = m.place

theorem MessageRow.Stays.refl (o : Option MessageRow) : Stays o o := fun m hm => ⟨m, hm, rfl⟩

theorem MessageRow.Stays.trans (o₁ o₂ o₃ : Option MessageRow) (h : Stays o₁ o₂)
    (h' : Stays o₂ o₃) : Stays o₁ o₃ := by
  intro m hm
  obtain ⟨m₂, hm₂, hplace⟩ := h m hm
  obtain ⟨m₃, hm₃, hplace'⟩ := h' m₂ hm₂
  exact ⟨m₃, hm₃, hplace'.trans hplace⟩

theorem MessageRow.Act.stays {o : Option MessageRow} {m : MessageRow} (h : Act o m) :
    Stays o (some m) := by
  rintro m₀ rfl
  cases h
  exact ⟨_, rfl, rfl⟩

/-- The counter has not gone back. -/
def ConversationRow.Later (o o' : Option ConversationRow) : Prop :=
  ∀ c, o = some c → ∃ c', o' = some c' ∧ c.lastSeq ≤ c'.lastSeq

theorem ConversationRow.Later.refl (o : Option ConversationRow) : Later o o :=
  fun c hc => ⟨c, hc, le_rfl⟩

theorem ConversationRow.Later.trans (o₁ o₂ o₃ : Option ConversationRow) (h : Later o₁ o₂)
    (h' : Later o₂ o₃) : Later o₁ o₃ := by
  intro c hc
  obtain ⟨c₂, hc₂, hle⟩ := h c hc
  obtain ⟨c₃, hc₃, hle'⟩ := h' c₂ hc₂
  exact ⟨c₃, hc₃, hle.trans hle'⟩

theorem ConversationRow.Act.later {o : Option ConversationRow} {c : ConversationRow}
    (h : Act o c) : Later o (some c) := by
  rintro c₀ rfl
  cases h
  exact ⟨_, rfl, Nat.le_succ _⟩

/-- The version over a conversation is a new one, or one whose counter has moved on once. -/
def ConversationRow.Counted (o o' : Option ConversationRow) : Prop :=
  ∃ c', o' = some c' ∧
    (o = none ∧ c'.lastSeq = 0 ∨ ∃ c, o = some c ∧ c'.lastSeq = c.lastSeq + 1)

theorem ConversationRow.Counted.later {o o' : Option ConversationRow} (h : Counted o o') :
    Later o o' := by
  rintro c rfl
  obtain ⟨c', rfl, ⟨hnone, -⟩ | ⟨c₀, hc₀, hnext⟩⟩ := h
  · cases hnone
  · obtain rfl := Option.some.inj hc₀
    exact ⟨c', rfl, by omega⟩

theorem MessageRow.place_eq_some {m : MessageRow} {k : Uuid} {s : ℕ} :
    m.place = some (k, s) ↔ m.conversationId = k ∧ m.seq = s := by
  rw [place, Option.some.injEq, Prod.mk.injEq]

/-! ### The invariant -/

variable {cs cs' : Conversations} {ms ms' : Messages} {i j : ℕ} {k l : Uuid} {s : ℕ}

/-- **The published log is complete**, and whoever is about to publish a message has the
counter of its conversation. -/
structure LogInv (cs : Conversations) (ms : Messages) : Prop where
  /-- One message in each place. -/
  unique : ms.AtMostOne MessageRow.place
  /-- A published message has a place below the counter. -/
  within : ∀ {l m}, (ms.slot l).committed = some m →
    ∃ c, (cs.slot m.conversationId).committed = some c ∧ 1 ≤ m.seq ∧ m.seq ≤ c.lastSeq
  /-- There is a message in every place below the counter. -/
  full : ∀ {k c s}, (cs.slot k).committed = some c → 1 ≤ s → s ≤ c.lastSeq →
    ∃ l, ms.Published MessageRow.place l (k, s)
  /-- An open transaction has moved a counter on at most once. -/
  counted : ∀ {k j v}, (cs.slot k).lock = some (j, v) →
    ConversationRow.Counted (cs.slot k).committed v
  /-- The version over a message is in the same place. -/
  stays : ms.Ordered MessageRow.Stays
  /-- A new message has the place its transaction took. -/
  taken : ∀ {l j m}, (ms.slot l).lock = some (j, some m) → (ms.slot l).committed = none →
    ∃ c c', (cs.slot m.conversationId).committed = some c ∧
      (cs.slot m.conversationId).lock = some (j, some c') ∧ c'.lastSeq = m.seq ∧
      m.seq = c.lastSeq + 1

/-- Process `i` has no conversation. -/
def Free (i : ℕ) (cs : Conversations) : Prop := ∀ k v, (cs.slot k).lock ≠ some (i, v)

/-- Process `i` has moved the counter of conversation `k` on to place `s`, and no other one. -/
structure Owes (i : ℕ) (k : Uuid) (s : ℕ) (cs : Conversations) : Prop where
  /-- The counter. -/
  next : ∃ c c', (cs.slot k).committed = some c ∧ (cs.slot k).lock = some (i, some c') ∧
    c'.lastSeq = s ∧ s = c.lastSeq + 1
  /-- The others. -/
  only : ∀ l v, (cs.slot l).lock = some (i, v) → l = k

/-- **Every counter that process `i` has moved on is paid for** by a message in the new place. -/
def Paid (i : ℕ) (cs : Conversations) (ms : Messages) : Prop :=
  ∀ k c c', (cs.slot k).committed = some c → (cs.slot k).lock = some (i, some c') →
    ∃ l, ms.Pending MessageRow.place i l (k, c'.lastSeq)

theorem Free.paid (h : Free i cs) : Paid i cs ms := fun k _ _ _ hlock => absurd hlock (h k _)

theorem published_of_grown (h : Table.Grown MessageRow.Stays ms ms')
    (hl : ms.Published MessageRow.place l (k, s)) : ms'.Published MessageRow.place l (k, s) := by
  obtain ⟨m, hm, hplace⟩ := hl
  obtain ⟨m', hm', hplace'⟩ := h l m hm
  exact ⟨m', hm', hplace'.trans hplace⟩

theorem LogInv.later (h : LogInv cs ms) : cs.Ordered ConversationRow.Later :=
  fun _ _ _ hlock => (h.counted hlock).later

/-- A conversation that process `i` may write and has not is as it is published. -/
theorem Free.row (hfree : Free i cs) (h : (cs.slot k).freeFor i = true) :
    (cs.slot k).lock = none ∧ cs.row i k = (cs.slot k).committed := by
  rcases Slot.lock_eq_of_freeFor h with hnone | ⟨v, hv⟩
  · exact ⟨hnone, Slot.visible_of_unlocked hnone⟩
  · exact absurd hv (hfree k v)

/-! ### Steps -/

section Steps

variable {c c' : ConversationRow} {m : MessageRow}

/-- A version is put over a conversation nobody holds. -/
theorem LogInv.write (h : LogInv cs ms) (hnone : (cs.slot k).lock = none)
    (hc : ConversationRow.Counted (cs.slot k).committed (some c')) :
    LogInv (cs.put k ((cs.slot k).write i (some c'))) ms := by
  have hcommitted : ∀ l, ((cs.put k ((cs.slot k).write i (some c'))).slot l).committed =
      (cs.slot l).committed := by
    intro l
    rcases eq_or_ne l k with rfl | hne
    · rw [Table.slot_put_self, Slot.write_committed]
    · rw [Table.slot_put_of_ne hne]
  refine ⟨h.unique, fun hm => ?_, fun hk => ?_, fun {l j v} hlock => ?_, h.stays,
    fun {l j m} hlock hnew => ?_⟩
  · rw [hcommitted]
    exact h.within hm
  · rw [hcommitted] at hk
    exact h.full hk
  · rw [hcommitted]
    rcases eq_or_ne l k with rfl | hne
    · rw [Table.slot_put_self, Slot.write_lock] at hlock
      cases hlock
      exact hc
    · rw [Table.slot_put_of_ne hne] at hlock
      exact h.counted hlock
  · obtain ⟨c, c₁, hcom, hheld, hseq⟩ := h.taken hlock hnew
    have hne : m.conversationId ≠ k := by
      rintro rfl
      rw [hnone] at hheld
      cases hheld
    refine ⟨c, c₁, ?_, ?_, hseq⟩
    · rw [hcommitted, hcom]
    · rw [Table.slot_put_of_ne hne, hheld]

/-- A conversation is created. -/
theorem LogInv.create {b : Bool} {clash : ConversationRow → Bool} (h : LogInv cs ms)
    (hc : c.lastSeq = 0) (hr : cs.insertUnique .tx i k clash c = some (b, cs')) : LogInv cs' ms := by
  rcases (Table.insertUnique_cases hr).2 with ⟨-, rfl⟩ | ⟨hr, -⟩
  · exact h
  obtain ⟨hfree, -, ⟨-, rfl⟩ | ⟨c', hc', rfl⟩⟩ := Table.modify_cases hr
  · exact h
  obtain ⟨hrow, rfl⟩ := Table.inserting_cases hc'
  rcases Slot.lock_eq_of_freeFor hfree with hnone | ⟨v, hv⟩
  · have hcommitted : (cs.slot k).committed = none := by
      rw [← hrow, Table.row, Slot.visible_of_unlocked hnone]
    exact h.write hnone ⟨c', rfl, Or.inl ⟨hcommitted, hc⟩⟩
  · -- a row that is held is there
    obtain ⟨c₁, rfl, -⟩ := h.counted hv
    rw [Table.row, Slot.visible_of_held hv] at hrow
    cases hrow

/-- A counter is moved on. -/
theorem LogInv.next {b : Option ℕ} {now : Instant} (h : LogInv cs ms) (hfree : Free i cs)
    (hr : cs.modify .tx i k (Table.updating (ConversationRow.next now)) = some (b, cs')) :
    LogInv cs' ms ∧ (b = none ∧ cs' = cs ∨ ∃ s, b = some s ∧ Owes i k s cs') := by
  obtain ⟨hmay, hb, ⟨hnew, rfl⟩ | ⟨c', hc', rfl⟩⟩ := Table.modify_cases hr
  · refine ⟨h, Or.inl ⟨?_, rfl⟩⟩
    rcases hrow : cs'.row i k with _ | c
    · rw [hb, hrow]
      rfl
    · rw [hrow] at hnew
      cases hnew
  · obtain ⟨hnone, hrow⟩ := hfree.row hmay
    obtain ⟨c, s, hsees, hnext⟩ := Table.updating_cases hc'
    have hcommitted : (cs.slot k).committed = some c := by rw [← hrow, hsees]
    have hb : b = some (c.lastSeq + 1) := by
      rw [hb, hsees]
      rfl
    cases hnext
    refine ⟨h.write hnone ⟨_, rfl, Or.inr ⟨c, hcommitted, rfl⟩⟩, Or.inr ⟨_, hb, ?_, ?_⟩⟩
    · rw [Table.slot_put_self]
      exact ⟨c, _, hcommitted, rfl, rfl, rfl⟩
    · intro l v hlock
      by_contra hne
      rw [Table.slot_put_of_ne hne] at hlock
      exact hfree l v hlock

/-- A message is inserted in the place that was taken for it. -/
theorem LogInv.insert {b : Bool} (h : LogInv cs ms) (howes : Owes i m.conversationId m.seq cs)
    (hr : ms.insertUnique .tx i l m.clashes m = some (b, ms')) :
    LogInv cs ms' ∧ (b = true → Paid i cs ms') := by
  have heff : ms.Effect (fun _ => MessageRow.Act) i ms' :=
    Table.effect_of_insertUnique hr fun _ => .inserted m
  have hunique : ms'.AtMostOne MessageRow.place := h.unique.insertUnique hr fun g m' hg hg' => by
    have hplace := MessageRow.place_eq_some.mp (hg'.trans hg.symm)
    simp [MessageRow.clashes, hplace]
  have hstays := (heff.ordered MessageRow.Stays.refl MessageRow.Stays.trans h.stays
    fun _ _ hact => hact.stays).1
  rcases (Table.insertUnique_cases hr).2 with ⟨rfl, rfl⟩ | ⟨hr, -⟩
  · exact ⟨h, nofun⟩
  obtain ⟨-, hb, ⟨hnew, rfl⟩ | ⟨m', hm', rfl⟩⟩ := Table.modify_cases hr
  · refine ⟨h, ?_⟩
    rcases hrow : ms'.row i l with _ | m₀
    · rw [hrow] at hnew
      cases hnew
    · rw [hrow] at hb
      rintro rfl
      cases hb
  obtain ⟨-, rfl⟩ := Table.inserting_cases hm'
  have hcommitted : ∀ l', ((ms.put l ((ms.slot l).put .tx i m')).slot l').committed =
      (ms.slot l').committed := fun l' => Table.committed_modify hr l'
  refine ⟨⟨hunique, fun hm => ?_, fun hk hone hle => ?_, h.counted, hstays,
    fun {l' j m} hlock hnew => ?_⟩, fun _ k c c' _ hheld => ?_⟩
  · rw [hcommitted] at hm
    exact h.within hm
  · obtain ⟨l', m, hm, hplace⟩ := h.full hk hone hle
    exact ⟨l', m, by rw [hcommitted, hm], hplace⟩
  · rcases eq_or_ne l' l with rfl | hne
    · rw [Table.slot_put_self] at hlock
      cases hlock
      exact howes.next
    · rw [Table.slot_put_of_ne hne] at hlock hnew
      exact h.taken hlock hnew
  · obtain rfl := howes.only k _ hheld
    obtain ⟨c₀, c₁, -, hlock, hseq, -⟩ := howes.next
    rw [hheld] at hlock
    cases hlock
    refine ⟨l, m', ?_, MessageRow.place_eq_some.mpr ⟨rfl, hseq.symm⟩⟩
    rw [Table.slot_put_self]
    rfl

/-- A message is removed, and keeps its place. -/
theorem LogInv.softDelete {b : Option Unit} {conversationId sender : Uuid} {now : Instant}
    (h : LogInv cs ms)
    (hr : ms.modify .auto i l
      (Table.updating (MessageRow.softDelete conversationId sender now)) = some (b, ms')) :
    LogInv cs ms' := by
  have hact : ∀ m, (Table.updating (MessageRow.softDelete conversationId sender now)
      (ms.row i l)).2 = some m → MessageRow.Act (ms.row i l) m :=
    fun m hm => MessageRow.act_of_softDelete hm
  obtain ⟨hstays, hgrown⟩ := (Table.effect_of_modify (A := fun _ => MessageRow.Act) hr hact).ordered
    MessageRow.Stays.refl MessageRow.Stays.trans h.stays fun _ _ hact => hact.stays
  have hsame : ∀ m, (Table.updating (MessageRow.softDelete conversationId sender now)
      (ms.row i l)).2 = some m → ∃ m₀, ms.row i l = some m₀ ∧ m.place = m₀.place := by
    intro m hm
    obtain ⟨m₀, u, hrow, -⟩ := Table.updating_cases hm
    obtain ⟨m', hm', hplace⟩ := (hact m hm).stays m₀ hrow
    cases hm'
    exact ⟨m₀, hrow, hplace⟩
  refine ⟨h.unique.modify hr fun m g hm hg => ?_, fun {l' m} hm => ?_, fun hk hone hle => ?_,
    h.counted, hstays, fun {l' j m} hlock hnew => ?_⟩
  · obtain ⟨m₀, hrow, hplace⟩ := hsame m hm
    exact Or.inl ⟨m₀, hrow, hplace ▸ hg⟩
  · -- what is published is what was, or what it was put over was in the same place
    have hold : ∃ m₀, (ms.slot l').committed = some m₀ ∧ m.place = m₀.place := by
      rcases eq_or_ne l' l with rfl | hne
      · have hnone := Table.unlocked_of_auto hr
        obtain ⟨-, -, ⟨-, rfl⟩ | ⟨m', hm', rfl⟩⟩ := Table.modify_cases hr
        · exact ⟨m, hm, rfl⟩
        · rw [Table.slot_put_self] at hm
          cases hm
          obtain ⟨m₀, hrow, hplace⟩ := hsame m hm'
          rw [Table.row, Slot.visible_of_unlocked hnone] at hrow
          exact ⟨m₀, hrow, hplace⟩
      · rw [Table.slot_modify_of_ne hr hne] at hm
        exact ⟨m, hm, rfl⟩
    obtain ⟨m₀, hm₀, hplace⟩ := hold
    obtain ⟨hconv, hseq⟩ := MessageRow.place_eq_some.mp hplace.symm
    rw [← hconv, ← hseq]
    exact h.within hm₀
  · obtain ⟨l', hl'⟩ := h.full hk hone hle
    exact ⟨l', published_of_grown hgrown hl'⟩
  · have hlock' := Table.lock_modify_auto hr hlock
    rcases hcommitted : (ms.slot l').committed with _ | m₀
    · exact h.taken hlock' hcommitted
    · obtain ⟨m', hm', -⟩ := hgrown l' m₀ hcommitted
      rw [hnew] at hm'
      cases hm'

/-! ### The end of a transaction -/

/-- **A transaction that has paid for its counters may commit.** -/
theorem LogInv.commit (h : LogInv cs ms) (hpaid : Paid i cs ms) :
    LogInv (cs.commit i) (ms.commit i) := by
  obtain ⟨hstays, hgrown⟩ := (Table.Effect.commit (A := fun _ => MessageRow.Act) (i := i) ms).ordered
    MessageRow.Stays.refl MessageRow.Stays.trans h.stays fun _ _ hact => hact.stays
  have hlater : ∀ k c, (cs.slot k).committed = some c →
      ∃ c', ((cs.commit i).slot k).committed = some c' ∧ c.lastSeq ≤ c'.lastSeq := by
    intro k c hc
    exact ((Table.Effect.commit (A := fun _ => ConversationRow.Act) (i := i) cs).ordered
      ConversationRow.Later.refl ConversationRow.Later.trans h.later
      fun _ _ hact => hact.later).2 k c hc
  refine ⟨h.unique.commit, fun {l m} hm => ?_, fun {k c s} hk hone hle => ?_, fun {k j v} hlock => ?_,
    hstays, fun {l j m} hlock hnew => ?_⟩
  · rw [Table.slot_commit, Slot.commit_committed] at hm
    have hold : ∀ m₀, (ms.slot l).committed = some m₀ → m.place = m₀.place →
        ∃ c, ((cs.commit i).slot m.conversationId).committed = some c ∧ 1 ≤ m.seq ∧
          m.seq ≤ c.lastSeq := by
      intro m₀ hm₀ hplace
      obtain ⟨hconv, hseq⟩ := MessageRow.place_eq_some.mp hplace
      obtain ⟨c, hc, hone, hle⟩ := h.within hm₀
      obtain ⟨c', hc', hcle⟩ := hlater _ c hc
      exact ⟨c', by rw [hconv, hc'], by omega, by omega⟩
    rcases Slot.visible_cases i (ms.slot l) with hi | hc
    · rw [hm] at hi
      rcases hcommitted : (ms.slot l).committed with _ | m₀
      · -- a message of this transaction, whose counter is published with it
        obtain ⟨c, c', -, hheld, hseq, hnext⟩ := h.taken hi hcommitted
        refine ⟨c', ?_, by omega, by omega⟩
        rw [Table.slot_commit, Slot.commit_of_held hheld]
      · obtain ⟨m', hm', hplace⟩ := h.stays l i _ hi m₀ hcommitted
        cases hm'
        exact hold m₀ hcommitted hplace
    · exact hold m (hc.symm.trans hm) rfl
  · rw [Table.slot_commit, Slot.commit_committed] at hk
    have hpublished : ∀ c₀, (cs.slot k).committed = some c₀ → s ≤ c₀.lastSeq →
        ∃ l, (ms.commit i).Published MessageRow.place l (k, s) := by
      intro c₀ hc₀ hle₀
      obtain ⟨l, hl⟩ := h.full hc₀ hone hle₀
      exact ⟨l, published_of_grown hgrown hl⟩
    rcases Slot.visible_cases i (cs.slot k) with hi | hc
    · rw [hk] at hi
      obtain ⟨c', hc', ⟨-, hzero⟩ | ⟨c₀, hc₀, hnext⟩⟩ := h.counted hi
      · cases hc'
        omega
      · cases hc'
        by_cases hlast : s ≤ c₀.lastSeq
        · exact hpublished c₀ hc₀ hlast
        · -- the new place, which is paid for
          obtain ⟨l, m, hm, hplace⟩ := hpaid k c₀ c hc₀ hi
          have hs : s = c.lastSeq := by omega
          refine ⟨l, m, ?_, hs ▸ hplace⟩
          rw [Table.slot_commit, Slot.commit_of_held hm]
    · exact hpublished c (hc.symm.trans hk) hle
  · obtain ⟨hne, hlock⟩ := Slot.lock_of_commit hlock
    rw [Table.slot_commit, Slot.commit_of_other hlock hne]
    exact h.counted hlock
  · obtain ⟨hne, hlock⟩ := Slot.lock_of_commit hlock
    rw [Table.slot_commit, Slot.commit_of_other hlock hne] at hnew
    obtain ⟨c, c', hc, hheld, hseq⟩ := h.taken hlock hnew
    rw [Table.slot_commit, Slot.commit_of_other hheld hne]
    exact ⟨c, c', hc, hheld, hseq⟩

/-- A transaction may be rolled back at any point. -/
theorem LogInv.rollback (h : LogInv cs ms) : LogInv (cs.rollback i) (ms.rollback i) := by
  have hstays := ((Table.Effect.rollback (A := fun _ => MessageRow.Act) (i := i) ms).ordered
    MessageRow.Stays.refl MessageRow.Stays.trans h.stays fun _ _ hact => hact.stays).1
  have hms : ∀ l, ((ms.rollback i).slot l).committed = (ms.slot l).committed :=
    fun l => Slot.rollback_committed
  have hcs : ∀ k, ((cs.rollback i).slot k).committed = (cs.slot k).committed :=
    fun k => Slot.rollback_committed
  refine ⟨h.unique.rollback, fun {l m} hm => ?_, fun {k c s} hk hone hle => ?_,
    fun {k j v} hlock => ?_, hstays, fun {l j m} hlock hnew => ?_⟩
  · rw [hms] at hm
    rw [hcs]
    exact h.within hm
  · rw [hcs] at hk
    obtain ⟨l, m, hm, hplace⟩ := h.full hk hone hle
    exact ⟨l, m, by rw [hms, hm], hplace⟩
  · rw [hcs]
    exact h.counted (Slot.lock_of_rollback hlock).2
  · rw [hms] at hnew
    obtain ⟨hne, hlock⟩ := Slot.lock_of_rollback hlock
    obtain ⟨c, c', hc, hheld, hseq⟩ := h.taken hlock hnew
    rw [hcs, Table.slot_rollback, Slot.rollback_of_other hheld hne]
    exact ⟨c, c', hc, hheld, hseq⟩

end Steps

/-- The empty log. -/
theorem LogInv.empty : LogInv (.empty : Conversations) (.empty : Messages) where
  unique := .of_unlocked (fun _ => rfl) fun ⟨_, hm, _⟩ => nomatch hm
  within := nofun
  full := nofun
  counted := nofun
  stays := nofun
  taken := nofun

/-! ### What the others cannot take away -/

section Moves

/-- What a process holds of a table is left alone by the others. -/
theorem held_of_moves {K R : Type} [DecidableEq K] {t t' : Table ℕ K R} (hmoves : t.Moves j t')
    (hne : j ≠ i) {k : K} {v : Option R} (h : (t.slot k).lock = some (i, v)) :
    t'.slot k = t.slot k :=
  (hmoves k).eq_of_held h hne.symm

theorem Free.of_moves (h : Free i cs) (hmoves : cs.Moves j cs') (hne : j ≠ i) : Free i cs' :=
  fun k v hlock => h k v ((hmoves k).lock_of_other hlock hne.symm)

theorem Owes.of_moves (h : Owes i k s cs) (hmoves : cs.Moves j cs') (hne : j ≠ i) :
    Owes i k s cs' := by
  obtain ⟨c, c', hc, hlock, hseq⟩ := h.next
  refine ⟨⟨c, c', ?_⟩, fun l v hl => h.only l v ((hmoves l).lock_of_other hl hne.symm)⟩
  rw [held_of_moves hmoves hne hlock]
  exact ⟨hc, hlock, hseq⟩

theorem Paid.of_moves (h : Paid i cs ms) (hcs : cs.Moves j cs') (hms : ms.Moves j ms')
    (hne : j ≠ i) : Paid i cs' ms' := by
  intro k c c' hc hlock
  have hold := (hcs k).lock_of_other hlock hne.symm
  rw [held_of_moves hcs hne hold] at hc
  obtain ⟨l, m, hm, hplace⟩ := h k c c' hc hold
  exact ⟨l, m, by rw [held_of_moves hms hne hm, hm], hplace⟩

end Moves

end Messaging

end Marketplace
