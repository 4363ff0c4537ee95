import Marketplace.Messaging.Footprint

/-!
# One conversation for each pair

Two accounts may start a conversation with each other at the same moment, from either side. The
pair is stored in order and covered by a unique index, so one of the two inserts waits for the
other and then finds it; and only the one that has inserted the row adds the participants, before
it commits. So whoever is adding participants holds a conversation that nobody sees yet
(`Marketplace.Messaging.PairInv.joining`), and a transaction that has added both may publish
them together (`Marketplace.Messaging.PairInv.commit`).

A request that fails on the way rolls all of this back, and the pair is as it was. What a request
answers is the conversation of the pair either way (`Marketplace.Messaging.one_conversation`).
-/

namespace Marketplace

namespace Messaging

open ReadCommitted

/-- The table of participants. -/
abbrev Participants : Type := Table ℕ (Uuid × Uuid) Participant

/-- An account takes part in a conversation. -/
def ConversationRow.Joins (u : Uuid) (c : ConversationRow) : Prop := u = c.dmLo ∨ u = c.dmHi

/-- The conversation of a pair, as the unique index has it. -/
def ConversationRow.group (c : ConversationRow) : Option (Uuid × Uuid) := some c.pair

theorem ConversationRow.pair_eq {c c' : ConversationRow} :
    c.pair = c'.pair ↔ c.dmLo = c'.dmLo ∧ c.dmHi = c'.dmHi := by
  rw [pair, pair, Prod.mk.injEq]

theorem ConversationRow.joins_of_pair {c c' : ConversationRow} {u : Uuid} (h : c.pair = c'.pair)
    (hu : c.Joins u) : c'.Joins u := by
  obtain ⟨hlo, hhi⟩ := pair_eq.mp h
  rwa [Joins, ← hlo, ← hhi]

theorem ConversationRow.clashes_of_group {c c' : ConversationRow} {g : Uuid × Uuid}
    (h : c.group = some g) (h' : c'.group = some g) : c.clashes c' = true := by
  have hpair : c'.pair = c.pair := Option.some.inj (h'.trans h.symm)
  obtain ⟨hlo, hhi⟩ := pair_eq.mp hpair
  simp [clashes, hlo, hhi]

/-! ### The invariant -/

/-- **Each pair has one conversation, and each conversation its pair.** -/
structure PairInv (cs : Conversations) (ps : Participants) : Prop where
  /-- One conversation for each pair. -/
  unique : cs.AtMostOne ConversationRow.group
  /-- A conversation keeps its pair. -/
  paired : cs.Ordered (Lasts ConversationRow.pair)
  /-- The two accounts differ. -/
  distinct : cs.Holds fun _ c => c.dmLo < c.dmHi
  /-- The pair of a published conversation takes part in it. -/
  complete : ∀ {k c u}, (cs.slot k).committed = some c → c.Joins u →
    (ps.slot (k, u)).committed.isSome = true
  /-- Nobody else does. -/
  only : ∀ {k u p}, (ps.slot (k, u)).committed = some p →
    ∃ c, (cs.slot k).committed = some c ∧ c.Joins u
  /-- Whoever adds participants, or moves their marks, is about to publish the conversation. -/
  joining : ∀ {k u j v}, (ps.slot (k, u)).lock = some (j, v) →
    ∃ p, v = some p ∧ ∃ c, cs.Draft j k c ∧ (cs.slot k).committed = none ∧ c.Joins u

/-- Process `i` is about to publish no new conversation. -/
def Bare (i : ℕ) (cs : Conversations) : Prop :=
  ∀ k c, cs.Draft i k c → (cs.slot k).committed ≠ none

/-- **Every new conversation of process `i` has its participants.** -/
def Whole (i : ℕ) (cs : Conversations) (ps : Participants) : Prop :=
  ∀ k c, cs.Draft i k c → (cs.slot k).committed = none → ∀ u, c.Joins u →
    ∃ p, ps.Draft i (k, u) p

/-- Conversation `k` is new, and the only new one of process `i`. -/
structure Newborn (i : ℕ) (k : Uuid) (pair : Uuid × Uuid) (cs : Conversations) : Prop where
  /-- It is on its way. -/
  draft : ∃ c, cs.Draft i k c ∧ c.pair = pair
  /-- It is not published. -/
  fresh : (cs.slot k).committed = none
  /-- No other one is on its way. -/
  sole : ∀ l c, cs.Draft i l c → (cs.slot l).committed = none → l = k

variable {cs cs' : Conversations} {ps ps' : Participants} {i j : ℕ} {k l u : Uuid}
  {pair : Uuid × Uuid}

theorem Bare.whole (h : Bare i cs) : Whole i cs ps :=
  fun k c hdraft hnone => absurd hnone (h k c hdraft)

/-- A new conversation is whole when both have joined. -/
theorem Newborn.whole (h : Newborn i k pair cs) {p p' : Participant}
    (hlo : ps.Draft i (k, pair.1) p) (hhi : ps.Draft i (k, pair.2) p') : Whole i cs ps := by
  intro l c hdraft hnone u hu
  obtain rfl := h.sole l c hdraft hnone
  obtain ⟨c', hdraft', rfl⟩ := h.draft
  rw [Table.Draft, hdraft'] at hdraft
  cases hdraft
  rcases hu with rfl | rfl
  · exact ⟨p, hlo⟩
  · exact ⟨p', hhi⟩

/-- A conversation that nobody sees has no participants that anybody sees. -/
theorem PairInv.alone (h : PairInv cs ps) (hnone : (cs.slot k).committed = none) :
    (ps.slot (k, u)).committed = none := by
  rcases hp : (ps.slot (k, u)).committed with _ | p
  · rfl
  · obtain ⟨c, hc, -⟩ := h.only hp
    rw [hnone] at hc
    cases hc

/-- The participants of a published conversation are held by nobody. -/
theorem PairInv.settled (h : PairInv cs ps) {c : ConversationRow}
    (hc : (cs.slot k).committed = some c) : (ps.slot (k, u)).lock = none := by
  rcases hlock : (ps.slot (k, u)).lock with _ | ⟨j, v⟩
  · rfl
  · obtain ⟨-, -, -, -, hnone, -⟩ := h.joining hlock
    rw [hc] at hnone
    cases hnone

/-- The versions over a published conversation are about its pair. -/
theorem PairInv.pair_of_draft (h : PairInv cs ps) {c c' : ConversationRow}
    (hc : (cs.slot k).committed = some c) (hdraft : cs.Draft j k c') : c'.pair = c.pair := by
  obtain ⟨c₁, hc₁, hpair⟩ := h.paired k j _ hdraft c hc
  cases hc₁
  exact hpair

/-! ### Steps -/

section Steps

variable {c : ConversationRow} {b : Bool}

/-- A conversation is written over by another version of the same pair. -/
theorem PairInv.overwrite (h : PairInv cs ps) {c₀ : ConversationRow}
    (hrow : cs.row i k = some c₀) (hpair : c.pair = c₀.pair)
    (hcs : cs' = cs.put k ((cs.slot k).put .tx i c)) (hfree : (cs.slot k).freeFor i = true)
    (hunique : cs'.AtMostOne ConversationRow.group) : PairInv cs' ps := by
  have heff : cs.Effect (fun _ o r => ∃ r₀, o = some r₀ ∧ r.pair = r₀.pair) i cs' := by
    rw [hcs]
    exact .put .tx hfree ⟨c₀, hrow, hpair⟩
  have hcommitted : ∀ l, (cs'.slot l).committed = (cs.slot l).committed := by
    intro l
    rw [hcs]
    rcases eq_or_ne l k with rfl | hne
    · rw [Table.slot_put_self]
      rfl
    · rw [Table.slot_put_of_ne hne]
  refine ⟨hunique, ?_, ?_, ?_, ?_, ?_⟩
  · refine (heff.ordered Lasts.refl Lasts.trans h.paired fun l r hact => ?_).1
    obtain ⟨r₀, hr₀, hpair⟩ := hact
    rw [hr₀]
    exact Lasts.some hpair
  · refine heff.holds h.distinct fun l r hact => ?_
    obtain ⟨r₀, hr₀, hpair⟩ := hact
    obtain ⟨hlo, hhi⟩ := ConversationRow.pair_eq.mp hpair
    have hlt : r₀.dmLo < r₀.dmHi := Table.Holds.row (P := fun _ c => c.dmLo < c.dmHi) h.distinct hr₀
    rwa [← hlo, ← hhi] at hlt
  · intro l r u hr
    rw [hcommitted] at hr
    exact h.complete hr
  · intro l u p hp
    obtain ⟨r, hr, hu⟩ := h.only hp
    exact ⟨r, by rw [hcommitted, hr], hu⟩
  · intro l u j v hlock
    obtain ⟨p, hv, r, hdraft, hnone, hu⟩ := h.joining hlock
    refine ⟨p, hv, ?_⟩
    rw [hcommitted, hcs]
    rcases eq_or_ne l k with rfl | hne
    · obtain rfl : j = i := Slot.freeFor_iff.mp hfree _ _ hdraft
      rw [hdraft.row] at hrow
      cases hrow
      exact ⟨c, Table.draft_put, hnone, ConversationRow.joins_of_pair hpair.symm hu⟩
    · exact ⟨r, (Table.draft_put_of_ne hne).mpr hdraft, hnone, hu⟩

/-- The counter of a conversation is moved on. -/
theorem PairInv.next (h : PairInv cs ps) {o : Option ℕ} {now : Instant}
    (hr : cs.modify .tx i k (Table.updating (ConversationRow.next now)) = some (o, cs')) :
    PairInv cs' ps ∧ (Bare i cs → Bare i cs') := by
  have hunique : cs'.AtMostOne ConversationRow.group := by
    refine h.unique.modify hr fun r g hr hg => Or.inl ?_
    obtain ⟨r₀, s, hrow, hnext⟩ := Table.updating_cases hr
    cases hnext
    exact ⟨r₀, hrow, hg⟩
  obtain ⟨hfree, -, ⟨-, rfl⟩ | ⟨c', hnew, rfl⟩⟩ := Table.modify_cases hr
  · exact ⟨h, id⟩
  obtain ⟨c₀, s, hrow, hnext⟩ := Table.updating_cases hnew
  cases hnext
  have hpair : ({ c₀ with lastSeq := c₀.lastSeq + 1, lastMessageAt := some now } :
      ConversationRow).pair = c₀.pair := rfl
  refine ⟨h.overwrite hrow hpair rfl hfree hunique, fun hbare l c hdraft hnone => ?_⟩
  rw [Table.committed_modify hr] at hnone
  rcases eq_or_ne l k with rfl | hne
  · exact hbare l c₀ (Table.draft_of_row hrow hnone) hnone
  · exact hbare l c ((Table.draft_put_of_ne hne).mp hdraft) hnone

/-- **A conversation is created**, and is then the only new one of its process. -/
theorem PairInv.create (h : PairInv cs ps) (hlt : c.dmLo < c.dmHi)
    (hr : cs.insertUnique .tx i k c.clashes c = some (b, cs')) :
    PairInv cs' ps ∧ (Bare i cs → if b then Newborn i k c.pair cs' else Bare i cs') := by
  have hunique : cs'.AtMostOne ConversationRow.group := h.unique.insertUnique hr fun g c' hg hg' =>
    ConversationRow.clashes_of_group hg hg'
  have hpaired := ((Table.effect_of_insertUnique (A := fun _ o _ => o = none) hr fun _ => rfl).ordered
    Lasts.refl Lasts.trans h.paired fun l r hact => by rw [hact]; exact Lasts.none).1
  have hdistinct : cs'.Holds fun _ c => c.dmLo < c.dmHi :=
    (Table.effect_of_insertUnique (A := fun _ _ r => r = c) hr fun _ => rfl).holds h.distinct
      fun l r hact => by rw [hact]; exact hlt
  have hcommitted := Table.committed_insertUnique hr
  rcases (Table.insertUnique_cases hr).2 with ⟨rfl, rfl⟩ | ⟨hmod, -⟩
  · exact ⟨h, id⟩
  obtain ⟨hfree, hb, ⟨hold, rfl⟩ | ⟨c', hnew, rfl⟩⟩ := Table.modify_cases hmod
  · refine ⟨h, fun hbare => ?_⟩
    rcases hrow : cs'.row i k with _ | c₀
    · rw [hrow] at hold
      cases hold
    · rw [hrow] at hb
      obtain rfl : b = false := hb
      exact hbare
  obtain ⟨hrow, rfl⟩ := Table.inserting_cases hnew
  rw [hrow] at hb
  obtain rfl : b = true := hb
  refine ⟨⟨hunique, hpaired, hdistinct, fun hc => ?_, fun hp => ?_, fun {l u j v} hlock => ?_⟩,
    fun hbare => ⟨⟨c', Table.draft_put, rfl⟩, ?_, fun l r hdraft hnone => ?_⟩⟩
  · rw [hcommitted] at hc
    exact h.complete hc
  · obtain ⟨r, hr, hu⟩ := h.only hp
    exact ⟨r, by rw [hcommitted, hr], hu⟩
  · -- a conversation that participants are added to is there already
    obtain ⟨p, hv, r, hdraft, hnone, hu⟩ := h.joining hlock
    have hne : l ≠ k := by
      rintro rfl
      obtain rfl : j = i := Slot.freeFor_iff.mp hfree _ _ hdraft
      rw [hdraft.row] at hrow
      cases hrow
    exact ⟨p, hv, r, (Table.draft_put_of_ne hne).mpr hdraft, by rw [hcommitted, hnone], hu⟩
  · rw [hcommitted]
    have hle := h.paired.le_row Lasts.refl i k
    rw [hrow] at hle
    rcases hc : (cs.slot k).committed with _ | c₀
    · rfl
    · obtain ⟨c₁, hc₁, -⟩ := hle c₀ hc
      cases hc₁
  · by_contra hne
    rw [hcommitted] at hnone
    exact hbare l r ((Table.draft_put_of_ne hne).mp hdraft) hnone

/-- **A participant joins a new conversation.** -/
theorem PairInv.add (h : PairInv cs ps) (hnew : Newborn i k pair cs)
    (hu : u = pair.1 ∨ u = pair.2) {role : ParticipantRole}
    (hr : ps.modify .tx i (k, u) (Table.inserting { role := role }) = some (b, ps')) :
    PairInv cs ps' ∧ (∃ p, ps'.Draft i (k, u) p) ∧
      ∀ u', (∃ p, ps.Draft i (k, u') p) → ∃ p, ps'.Draft i (k, u') p := by
  obtain ⟨c, hdraft, rfl⟩ := hnew.draft
  have hcommitted := Table.committed_modify hr
  obtain ⟨hfree, -, ⟨hold, rfl⟩ | ⟨p, hp, rfl⟩⟩ := Table.modify_cases hr
  · refine ⟨h, ?_, fun _ => id⟩
    rcases hrow : ps'.row i (k, u) with _ | p
    · rw [hrow] at hold
      cases hold
    · exact ⟨p, Table.draft_of_row hrow (h.alone hnew.fresh)⟩
  obtain ⟨-, rfl⟩ := Table.inserting_cases hp
  refine ⟨⟨h.unique, h.paired, h.distinct, fun {l r u'} hc hu' => ?_, fun {l u' p} hp' => ?_,
    fun {l u' j v} hlock => ?_⟩, ⟨_, Table.draft_put⟩, fun u' ⟨p, hp'⟩ => ?_⟩
  · rw [hcommitted]
    exact h.complete hc hu'
  · rw [hcommitted] at hp'
    exact h.only hp'
  · by_cases hat : (l, u') = (k, u)
    · obtain ⟨rfl, rfl⟩ := Prod.mk.inj hat
      rw [Table.slot_put_self] at hlock
      obtain ⟨rfl, rfl, -⟩ := Slot.lock_put hlock
      exact ⟨_, rfl, c, hdraft, hnew.fresh, hu⟩
    · rw [Table.slot_put_of_ne hat] at hlock
      exact h.joining hlock
  · by_cases hat : (k, u') = (k, u)
    · rw [hat]
      exact ⟨_, Table.draft_put⟩
    · exact ⟨p, (Table.draft_put_of_ne hat).mpr hp'⟩

/-- A mark is moved. -/
theorem PairInv.mark (h : PairInv cs ps) {o : Option Unit} {n : ℕ}
    (hr : ps.modify .auto i (k, u) (Table.updating (Participant.markRead n)) = some (o, ps')) :
    PairInv cs ps' := by
  have hlock : ∀ {l u' j v}, (ps'.slot (l, u')).lock = some (j, v) →
      (ps.slot (l, u')).lock = some (j, v) := fun hl => Table.lock_modify_auto hr hl
  have hthere : ∀ l u', (ps'.slot (l, u')).committed.isSome = (ps.slot (l, u')).committed.isSome := by
    intro l u'
    rcases Table.committed_modify_cases hr (l, u') with heq | ⟨hat, p, hp, hp'⟩
    · rw [heq]
    · obtain ⟨p₀, b, hold, -⟩ := Table.updating_cases hp
      rw [hat, hp', hold]
      rfl
  refine ⟨h.unique, h.paired, h.distinct, fun {l r u'} hc hu' => ?_, fun {l u' p} hp => ?_,
    fun hl => h.joining (hlock hl)⟩
  · rw [hthere]
    exact h.complete hc hu'
  · have hsome : (ps.slot (l, u')).committed.isSome = true := by
      rw [← hthere, hp]
      rfl
    obtain ⟨p₀, hp₀⟩ := Option.isSome_iff_exists.mp hsome
    exact h.only hp₀

/-- What is published after a commit was published before, with the same pair, or is new. -/
theorem PairInv.committed_cases (h : PairInv cs ps)
    (hc : ((cs.commit i).slot k).committed = some c) :
    (∃ c₀, (cs.slot k).committed = some c₀ ∧ c₀.pair = c.pair) ∨
      (cs.slot k).committed = none ∧ cs.Draft i k c := by
  rcases Table.committed_of_commit hc with hdraft | hold
  · rcases hold : (cs.slot k).committed with _ | c₀
    · exact Or.inr ⟨rfl, hdraft⟩
    · exact Or.inl ⟨c₀, rfl, (h.pair_of_draft hold hdraft).symm⟩
  · exact Or.inl ⟨c, hold, rfl⟩

/-- **A transaction whose new conversation has its participants may commit.** -/
theorem PairInv.commit (h : PairInv cs ps) (hwhole : Whole i cs ps) :
    PairInv (cs.commit i) (ps.commit i) := by
  have heff : cs.Effect (fun _ _ _ => False) i (cs.commit i) := .commit _
  obtain ⟨hpaired, hgrown⟩ := heff.ordered Lasts.refl Lasts.trans h.paired
    fun _ _ hact => hact.elim
  refine ⟨h.unique.commit, hpaired, heff.holds h.distinct fun _ _ hact => hact.elim,
    fun {k c u} hc hu => ?_, fun {k u p} hp => ?_, fun {k u j v} hlock => ?_⟩
  · obtain ⟨c₀, hold, hpair⟩ | ⟨hnone, hdraft⟩ := h.committed_cases hc
    · rw [Table.slot_commit, Slot.commit_of_unlocked (h.settled hold)]
      exact h.complete hold (ConversationRow.joins_of_pair hpair.symm hu)
    · obtain ⟨p, hp⟩ := hwhole k c hdraft hnone u hu
      rw [Table.slot_commit, Slot.commit_of_held hp]
      rfl
  · rcases Table.committed_of_commit hp with hdraft | hold
    · obtain ⟨-, -, c, hc, -, hu⟩ := h.joining hdraft
      exact ⟨c, by rw [Table.slot_commit, Slot.commit_of_held hc], hu⟩
    · obtain ⟨c, hc, hu⟩ := h.only hold
      obtain ⟨c', hc', hpair⟩ := hgrown k c hc
      exact ⟨c', hc', ConversationRow.joins_of_pair hpair.symm hu⟩
  · obtain ⟨hne, hlock⟩ := Slot.lock_of_commit hlock
    obtain ⟨p, hv, c, hdraft, hnone, hu⟩ := h.joining hlock
    have hslot : (cs.commit i).slot k = cs.slot k := Slot.commit_of_other hdraft hne
    exact ⟨p, hv, c, by rw [Table.Draft, hslot]; exact hdraft, by rw [hslot, hnone], hu⟩

/-- A transaction may be rolled back at any point. -/
theorem PairInv.rollback (h : PairInv cs ps) : PairInv (cs.rollback i) (ps.rollback i) := by
  have heff : cs.Effect (fun _ _ _ => False) i (cs.rollback i) := .rollback _
  have hcs : ∀ l, ((cs.rollback i).slot l).committed = (cs.slot l).committed :=
    fun l => Slot.rollback_committed
  have hps : ∀ p, ((ps.rollback i).slot p).committed = (ps.slot p).committed :=
    fun p => Slot.rollback_committed
  refine ⟨h.unique.rollback, (heff.ordered Lasts.refl Lasts.trans h.paired
    fun _ _ hact => hact.elim).1, heff.holds h.distinct fun _ _ hact => hact.elim,
    fun {k c u} hc hu => ?_, fun {k u p} hp => ?_, fun {k u j v} hlock => ?_⟩
  · rw [hcs] at hc
    rw [hps]
    exact h.complete hc hu
  · rw [hps] at hp
    rw [hcs]
    exact h.only hp
  · obtain ⟨hne, hlock⟩ := Slot.lock_of_rollback hlock
    obtain ⟨p, hv, c, hdraft, hnone, hu⟩ := h.joining hlock
    have hslot : (cs.rollback i).slot k = cs.slot k := Slot.rollback_of_other hdraft hne
    exact ⟨p, hv, c, by rw [Table.Draft, hslot]; exact hdraft, by rw [hslot, hnone], hu⟩

end Steps

/-- No conversations. -/
theorem PairInv.empty : PairInv (.empty : Conversations) (.empty : Participants) where
  unique := .of_unlocked (fun _ => rfl) fun ⟨_, hm, _⟩ => nomatch hm
  paired := nofun
  distinct _ _ h := by rcases h with h | ⟨_, h⟩ <;> cases h
  complete := nofun
  only := nofun
  joining := nofun

end Messaging

end Marketplace
