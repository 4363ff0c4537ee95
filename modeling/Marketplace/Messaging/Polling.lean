import Marketplace.Messaging.LogRequests
import Mathlib.Data.List.Nodup

/-!
# Polling a conversation

A poll reads the log in one statement, so it sees a complete log: the places after its cursor,
without a gap, up to the counter as it then is. A client that resumes where the last page told
it to (`Marketplace.Messaging.Followed`) has therefore received the places `1, …, next` in this
order, one message for each, however its polls fall between the sends and the removals of
others; and each of its polls brings it further while there is something to receive
(`Marketplace.Messaging.messages_delivered`).
-/

namespace Marketplace

namespace Messaging

open ReadCommitted

variable {env : Env} {i : ℕ} {db : Db} {k u : Uuid}

/-- A configuration of the messaging service. -/
abbrev Pool : Type 1 := Config ℕ Db Request (Except AppError Response) Query

/-- What is reached. -/
abbrev Run (env : Env) : Pool → Pool → Prop := Reachable (messagingService env) anyQuery

/-- The place of the last published message of a conversation. -/
def lastSeqOf (k : Uuid) (db : Db) : ℕ :=
  (db.conversations.slot k).committed.elim 0 ConversationRow.lastSeq

theorem lastSeqOf_le {db db' : Db} (h : Grows db db') : lastSeqOf k db ≤ lastSeqOf k db' := by
  rcases hcommitted : (db.conversations.slot k).committed with _ | c
  · rw [lastSeqOf, hcommitted]
    exact Nat.zero_le _
  · obtain ⟨c', hc', hle⟩ := h.conversations k c hcommitted
    rw [lastSeqOf, lastSeqOf, hcommitted, hc']
    exact hle

/-! ### What one statement sees -/

/-- The places a client may find after a cursor, as far as its limit allows. -/
def placesAfter (after last : ℕ) (limit : ℤ) : List ℕ :=
  List.range' (after + 1) (min (last - after) (max 1 (min limit 100)).toNat)

/-- **A process that holds no conversation sees the published messages, where they are.** -/
theorem place_of_row (h : db.log) (hfree : Free i db.conversations) {l : Uuid} {s : ℕ} :
    (∃ m, db.messages.row i l = some m ∧ m.conversationId = k ∧ m.seq = s) ↔
      db.messages.Published MessageRow.place l (k, s) := by
  have hplace : ∀ {m m' : MessageRow}, m'.place = m.place →
      (m.conversationId = k ∧ m.seq = s ↔ m'.place = some (k, s)) := fun heq => by
    rw [heq, MessageRow.place_eq_some]
  rcases Slot.visible_cases i (db.messages.slot l) with hi | hc
  · -- its own version, over a published one
    rcases hcommitted : (db.messages.slot l).committed with _ | m₀
    · constructor
      · rintro ⟨m, hm, -⟩
        rw [Table.row] at hm
        rw [hm] at hi
        obtain ⟨c, c', -, hheld, -⟩ := h.taken hi hcommitted
        exact absurd hheld (hfree _ _)
      · rintro ⟨m, hm, -⟩
        rw [hcommitted] at hm
        cases hm
    · obtain ⟨m, hm, hsame⟩ := h.stays l i _ hi m₀ hcommitted
      constructor
      · rintro ⟨m', hm', hat⟩
        rw [Table.row, hm] at hm'
        cases hm'
        exact ⟨m₀, hcommitted, (hplace hsame.symm).mp hat⟩
      · rintro ⟨m', hm', hat⟩
        rw [hcommitted] at hm'
        cases hm'
        exact ⟨m, hm, (hplace rfl).mpr (hsame.trans hat)⟩
  · rw [Table.row, hc]
    constructor
    · rintro ⟨m, hm, hat⟩
      exact ⟨m, hm, (hplace rfl).mp hat⟩
    · rintro ⟨m, hm, hat⟩
      exact ⟨m, hm, (hplace rfl).mpr hat⟩

/-- The places of a complete log. -/
theorem published_iff (h : db.log) {s : ℕ} :
    (∃ l, db.messages.Published MessageRow.place l (k, s)) ↔ 1 ≤ s ∧ s ≤ lastSeqOf k db := by
  constructor
  · rintro ⟨l, m, hm, hplace⟩
    obtain ⟨rfl, rfl⟩ := MessageRow.place_eq_some.mp hplace
    obtain ⟨c, hc, hone, hle⟩ := h.within hm
    rw [lastSeqOf, hc]
    exact ⟨hone, hle⟩
  · rintro ⟨hone, hle⟩
    rcases hc : (db.conversations.slot k).committed with _ | c
    · rw [lastSeqOf, hc, Option.elim_none] at hle
      omega
    · rw [lastSeqOf, hc] at hle
      exact h.full hc hone hle

/-- **The places after a cursor**, read off the messages in whatever way finds those that are
published. -/
theorem perm_places (h : db.log) {after : ℕ} {place : Uuid → Option ℕ}
    (hplace : ∀ l s, s ∈ place l ↔
      db.messages.Published MessageRow.place l (k, s) ∧ after < s) :
    (db.messages.keys.filterMap place).Perm
      (List.range' (after + 1) (lastSeqOf k db - after)) := by
  have hmem : ∀ s, s ∈ db.messages.keys.filterMap place ↔
      s ∈ List.range' (after + 1) (lastSeqOf k db - after) := by
    intro s
    rw [List.mem_filterMap, List.mem_range'_1]
    constructor
    · rintro ⟨l, -, hl⟩
      obtain ⟨hpub, hlt⟩ := (hplace l s).mp hl
      obtain ⟨-, hle⟩ := (published_iff h).mp ⟨l, hpub⟩
      omega
    · intro hs
      have hrange : 1 ≤ s ∧ s ≤ lastSeqOf k db := by omega
      obtain ⟨l, hl⟩ := (published_iff h).mpr hrange
      refine ⟨l, ?_, (hplace l s).mpr ⟨hl, by omega⟩⟩
      -- a published row is listed
      by_contra hnot
      obtain ⟨m, hm, -⟩ := hl
      rw [db.messages.empty_of_not_mem l hnot] at hm
      cases hm
  have hnodup : (db.messages.keys.filterMap place).Nodup := by
    refine List.Nodup.filterMap (fun l l' s hl hl' => ?_) db.messages.nodup
    exact h.unique.published ((hplace l s).mp hl).1 ((hplace l' s).mp hl').1
  exact (List.perm_ext_iff_of_nodup hnodup List.nodup_range').mpr hmem

/-- **One statement sees a complete log**: the places after the cursor, in order, without a
gap. -/
theorem seqs_afterSeq (h : db.log) (hfree : Free i db.conversations) {after : ℕ} {limit : ℤ} :
    (afterSeq k after limit i db).map Message.seq = placesAfter after (lastSeqOf k db) limit := by
  let place := fun l => ((db.messages.row i l).filter fun m =>
    m.conversationId = k && after < m.seq).map MessageRow.seq
  have hplace : ∀ l s, s ∈ place l ↔
      db.messages.Published MessageRow.place l (k, s) ∧ after < s := by
    intro l s
    rw [← place_of_row h hfree]
    simp only [place, Option.mem_def, Option.map_eq_some_iff, Option.filter_eq_some_iff,
      Bool.and_eq_true, decide_eq_true_eq]
    constructor
    · rintro ⟨m, ⟨hm, hconv, hlt⟩, rfl⟩
      exact ⟨⟨m, hm, hconv, rfl⟩, hlt⟩
    · rintro ⟨⟨m, hm, hconv, rfl⟩, hlt⟩
      exact ⟨m, ⟨hm, hconv, hlt⟩, rfl⟩
  have hsorted : (db.messages.keys.filterMap place).insertionSort (· ≤ ·) =
      List.range' (after + 1) (lastSeqOf k db - after) := by
    refine List.Perm.eq_of_pairwise' (List.pairwise_insertionSort (· ≤ ·) _)
      List.pairwise_le_range' ?_
    exact (List.perm_insertionSort _ _).trans (perm_places h hplace)
  have hfound : (afterSeq k after limit i db).map Message.seq =
      ((db.messages.keys.filterMap place).insertionSort (· ≤ ·)).take
        (max 1 (min limit 100)).toNat := by
    rw [afterSeq, List.map_take, List.map_insertionSort _ (· ≤ ·) _ _ fun _ _ _ _ => Iff.rfl,
      List.map_filterMap]
    simp only [Option.map_map]
    rfl
  rw [hfound, hsorted, placesAfter]
  rcases le_total (lastSeqOf k db - after) (max 1 (min limit 100)).toNat with hle | hle
  · rw [List.take_range'_of_length_le hle, min_eq_left hle]
  · rw [List.take_range'_of_length_ge hle, min_eq_right hle]

/-- A message of a page is published, where the page says. -/
theorem published_of_mem_afterSeq (h : db.log) (hfree : Free i db.conversations) {after : ℕ}
    {limit : ℤ} {m : Message} (hm : m ∈ afterSeq k after limit i db) :
    m.conversationId = k ∧ db.messages.Published MessageRow.place m.id (k, m.seq) := by
  have hfound := (List.mem_insertionSort _).mp (List.mem_of_mem_take hm)
  simp only [List.mem_filterMap, Option.map_eq_some_iff, Option.filter_eq_some_iff,
    Bool.and_eq_true, decide_eq_true_eq] at hfound
  obtain ⟨l, -, row, ⟨hrow, hconv, -⟩, rfl⟩ := hfound
  exact ⟨hconv, (place_of_row h hfree).mp ⟨row, hrow, hconv, rfl⟩⟩

/-! ### A client -/

/-- What a client's limit comes to. -/
def pageLimit (limit : Option ℤ) : ℤ := max 1 (min (limit.getD maxPage) maxPage)

/-- The program of a poll: the gate, and one statement. -/
theorem program_poll {after limit : Option ℤ} :
    (messagingService env).program i (.poll k u after limit) =
      .read (fun j db => (db.participants.row j (k, u)).isSome) fun participant =>
        if participant then
          .read (afterSeq k (after.getD 0).toNat (pageLimit limit)) fun messages =>
            .ret (.ok (.page messages ((messages.getLast?.map Message.seq).getD
              (after.getD 0).toNat)))
        else .ret (.error .notFound) := by
  show Prog.read _ _ = _
  congr 1
  funext participant
  cases participant <;> rfl

/-- The configuration in which process `i` has just been asked to poll. -/
def asked (env : Env) (i : ℕ) (k u : Uuid) (after limit : Option ℤ) (c : Pool) : Pool :=
  ⟨c.db, setProc i (.running (.poll k u after limit)
    ((messagingService env).program i (.poll k u after limit))) c.procs⟩

/-- **A client that polls, and resumes each time where it was told to**: what it has received, its
cursor, and how many of its polls were answered. Between its polls, and while they are under
way, the others do as they please; a poll that is refused, or lost, is made again. -/
inductive Followed (env : Env) (k u : Uuid) (c₀ : Pool) (received₀ : List Message) (next₀ : ℕ) :
    ℕ → List Message → ℕ → Pool → Prop
  /-- The client has not polled yet. -/
  | start : Followed env k u c₀ received₀ next₀ 0 received₀ next₀ c₀
  /-- The client waits. -/
  | wait {n : ℕ} {received : List Message} {next : ℕ} {c d : Pool}
      (hf : Followed env k u c₀ received₀ next₀ n received next c) (h : Run env c d) :
      Followed env k u c₀ received₀ next₀ n received next d
  /-- The client polls, and gets a page. -/
  | poll {n : ℕ} {received : List Message} {next : ℕ} {c d : Pool} {i : ℕ}
      {after limit : Option ℤ} {page : List Message} {next' : ℕ}
      (hf : Followed env k u c₀ received₀ next₀ n received next c) (hi : c.procs i = .idle)
      (hafter : after.getD 0 = next) (h : Run env (asked env i k u after limit c) d)
      (hd : d.Served i (.poll k u after limit) (.ok (.page page next'))) :
      Followed env k u c₀ received₀ next₀ (n + 1) (received ++ page) next' d

variable {c d c₀ : Pool} {page received received₀ : List Message} {next next₀ n : ℕ}
  {after limit : Option ℤ}

theorem run_asked (hi : c.procs i = .idle) : Run env c (asked env i k u after limit c) :=
  .single (.arrive i _ hi)

/-- **What a poll answers**: the places after its cursor, up to the counter at some moment since
it was asked. -/
theorem poll_page (hc : Run env (.initial {}) c) (hi : c.procs i = .idle)
    (h : Run env (asked env i k u after limit c) d)
    (hd : d.Served i (.poll k u after limit) (.ok (.page page next))) :
    (∃ last, lastSeqOf k c.db ≤ last ∧
      page.map Message.seq = placesAfter (after.getD 0).toNat last (pageLimit limit)) ∧
    (∀ m ∈ page, m.conversationId = k ∧ d.db.messages.Published MessageRow.place m.id (k, m.seq)) ∧
    next = (page.getLast?.map Message.seq).getD (after.getD 0).toNat := by
  have hprog : ∀ j r, Safe (fun _ => .any) ((messagingService env).program j r) (free env j) :=
    fun j r => log_serve r
  have hasked : Run env (.initial {}) (asked env i k u after limit c) := hc.trans (run_asked hi)
  obtain ⟨hlog, htracked⟩ := tracked_of_reachable hasked
  have hfree : (free env i).holds (asked env i k u after limit c).db :=
    (tracked_of_reachable hc).2.idle i hi
  have hreads : (asked env i k u after limit c).procs i = _ :=
    setProc_self.trans (congrArg (Proc.running _) program_poll)
  obtain ⟨e, he, hgate, hfree, hrest⟩ := Contract.exists_read hprog hlog htracked hfree hreads h hd
  have hpassed := hasked.trans (he.tail (.read hgate))
  rcases hparticipant : (e.db.participants.row i (k, u)).isSome with _ | _
  · -- a poll that is refused does not answer with a page
    simp only [hparticipant, Bool.false_eq_true, if_false] at hrest
    cases Reachable.result hrest setProc_self hd
  simp only [hparticipant, if_true] at hrest hpassed
  obtain ⟨hlog, htracked⟩ := tracked_of_reachable hpassed
  obtain ⟨e', he', hlook, hfree, hrest'⟩ :=
    Contract.exists_read hprog hlog htracked hfree setProc_self hrest hd
  have hlooked := hpassed.trans he'
  cases Reachable.result hrest' setProc_self hd
  obtain ⟨hlog, -⟩ := tracked_of_reachable hlooked
  have hsince : Grows c.db e'.db :=
    grows_of_reachable hc ((run_asked hi).trans ((he.tail (.read hgate)).trans (by
      simp only [hparticipant, if_true]
      exact he')))
  have huntil : Grows e'.db d.db := grows_of_reachable hlooked (.trans (.single (.read hlook)) hrest')
  refine ⟨⟨lastSeqOf k e'.db, ?_, seqs_afterSeq hlog hfree⟩, fun m hm => ?_, rfl⟩
  · exact lastSeqOf_le hsince
  · obtain ⟨hconv, hpub⟩ := published_of_mem_afterSeq hlog hfree hm
    exact ⟨hconv, published_of_grown huntil.messages hpub⟩

/-! ### What the client has received -/

/-- **The client has received the first places of the conversation**, in order, and from each the
message that is published there. -/
structure Received (k : Uuid) (received : List Message) (next : ℕ) (db : Db) : Prop where
  /-- The places. -/
  seqs : received.map Message.seq = List.range' 1 next
  /-- The messages. -/
  published : ∀ m ∈ received, m.conversationId = k ∧
    db.messages.Published MessageRow.place m.id (k, m.seq)

theorem Received.nil : Received k [] 0 db := ⟨rfl, nofun⟩

theorem Received.of_grows {db' : Db} (h : Received k received next db) (hg : Grows db db') :
    Received k received next db' :=
  ⟨h.seqs, fun m hm => ⟨(h.published m hm).1, published_of_grown hg.messages (h.published m hm).2⟩⟩

/-- A page carries on where the client was. -/
theorem Received.append {last : ℕ} {lim : ℤ} (h : Received k received next db)
    (hseqs : page.map Message.seq = placesAfter next last lim)
    (hpage : ∀ m ∈ page, m.conversationId = k ∧
      db.messages.Published MessageRow.place m.id (k, m.seq)) :
    ∃ len, len = min (last - next) (max 1 (min lim 100)).toNat ∧
      (page.getLast?.map Message.seq).getD next = next + len ∧
      Received k (received ++ page) (next + len) db := by
  refine ⟨_, rfl, ?_, ?_, fun m hm => ?_⟩
  · rw [← List.getLast?_map, hseqs, placesAfter, List.getLast?_range']
    split
    · rename_i hzero
      rw [hzero]
      rfl
    · rw [Option.getD_some]
      omega
  · rw [List.map_append, h.seqs, hseqs, placesAfter, Nat.add_comm next 1, List.range'_append_1]
  · rcases List.mem_append.mp hm with hm | hm
    · exact h.published m hm
    · exact hpage m hm

/-- **A message in a place the client has passed was received once.** -/
theorem Received.once (h : Received k received next db) (hlog : db.log) {l : Uuid} {s : ℕ}
    (hl : db.messages.Published MessageRow.place l (k, s)) (hs : s ≤ next) :
    (received.filter fun m => m.id = l).length = 1 := by
  obtain ⟨hone, -⟩ := (published_iff hlog).mp ⟨l, hl⟩
  have hsame : ∀ m ∈ received, m.id = l ↔ m.seq = s := by
    intro m hm
    have hpub := (h.published m hm).2
    constructor
    · rintro rfl
      obtain ⟨row, hrow, hplace⟩ := hpub
      obtain ⟨row', hrow', hplace'⟩ := hl
      rw [hrow] at hrow'
      cases hrow'
      rw [hplace] at hplace'
      cases hplace'
      rfl
    · rintro rfl
      exact hlog.unique.published hpub hl
  have hcount : (received.map Message.seq).count s = 1 := by
    rw [h.seqs]
    exact List.count_eq_one_of_mem List.nodup_range' (List.mem_range'_1.mpr (by omega))
  rw [List.count_eq_countP, List.countP_map] at hcount
  rw [← List.countP_eq_length_filter, ← hcount]
  refine List.countP_congr fun m hm => ?_
  simp [hsame m hm]

/-- What a client has received along a run, and how far it has come at least. -/
theorem Followed.come (hf : Followed env k u c₀ received₀ next₀ n received next c)
    (h₀ : Run env (.initial {}) c₀) (hr : Received k received₀ next₀ c₀.db) :
    Run env c₀ c ∧ Received k received next c.db ∧
      min (lastSeqOf k c₀.db) (next₀ + n) ≤ next := by
  induction hf with
  | start => exact ⟨.refl, hr, Nat.min_le_right _ _⟩
  | wait hf h ih =>
    obtain ⟨hrun, hrec, hfar⟩ := ih
    exact ⟨hrun.trans h, hrec.of_grows (grows_of_reachable (h₀.trans hrun) h), hfar⟩
  | @poll n received next c d i after limit page next' hf hi hafter h hd ih =>
    obtain ⟨hrun, hrec, hfar⟩ := ih
    have hc := h₀.trans hrun
    have hstep : Run env c d := (run_asked hi).trans h
    have hnext : (after.getD 0).toNat = next := by
      rw [hafter]
      exact Int.toNat_natCast next
    obtain ⟨⟨last, hlast, hseqs⟩, hpage, hresume⟩ := poll_page hc hi h hd
    rw [hnext] at hseqs hresume
    have hlast₀ := (lastSeqOf_le (grows_of_reachable h₀ hrun)).trans hlast
    obtain ⟨len, hlen, hcursor, hrec'⟩ :=
      (hrec.of_grows (grows_of_reachable hc hstep)).append hseqs hpage
    rw [hcursor] at hresume
    subst hresume
    refine ⟨hrun.trans hstep, hrec', ?_⟩
    have hroom : 1 ≤ (max 1 (min (pageLimit limit) 100)).toNat := by omega
    omega

/-- **The published log has no gap and no duplicate, and polling delivers all of it once.** In any
configuration that is reached, the places of a conversation's published messages are
`1, …, last_seq`, one message in each. And a client that has polled from `0` and resumed where it
was told to has received, in this order, one message for each place up to its cursor; every
message published by now it will have received, once, when enough further polls are answered. -/
theorem messages_delivered (hc : Run env (.initial {}) c) :
    (∀ k row, (c.db.conversations.slot k).committed = some row →
      (∀ s, (∃ l m, (c.db.messages.slot l).committed = some m ∧ m.conversationId = k ∧ m.seq = s) ↔
        1 ≤ s ∧ s ≤ row.lastSeq) ∧
      ∀ l l' m m', (c.db.messages.slot l).committed = some m → m.conversationId = k →
        (c.db.messages.slot l').committed = some m' → m'.conversationId = k → m.seq = m'.seq →
          l = l') ∧
    ∀ k u c₀ n received next, Run env (.initial {}) c₀ →
      Followed env k u c₀ [] 0 n received next c →
        received.map Message.seq = List.range' 1 next ∧
        (∀ m ∈ received, ∃ row, (c.db.messages.slot m.id).committed = some row ∧
          row.conversationId = k ∧ row.seq = m.seq) ∧
        ∀ n' received' next' d, Followed env k u c received next n' received' next' d →
          ∀ l row, (c.db.messages.slot l).committed = some row → row.conversationId = k →
            row.seq ≤ next + n' → (received'.filter fun m => m.id = l).length = 1 := by
  obtain ⟨hlog, -⟩ := tracked_of_reachable hc
  refine ⟨fun k row hrow => ⟨fun s => ?_, fun l l' m m' hl hconv hl' hconv' hseq => ?_⟩,
    fun k u c₀ n received next h₀ hf => ?_⟩
  · have hpub : (∃ l, c.db.messages.Published MessageRow.place l (k, s)) ↔
        1 ≤ s ∧ s ≤ lastSeqOf k c.db := published_iff hlog
    rw [lastSeqOf, hrow, Option.elim_some] at hpub
    rw [← hpub]
    constructor
    · rintro ⟨l, m, hm, hconv, hseq⟩
      exact ⟨l, m, hm, MessageRow.place_eq_some.mpr ⟨hconv, hseq⟩⟩
    · rintro ⟨l, m, hm, hplace⟩
      obtain ⟨hconv, hseq⟩ := MessageRow.place_eq_some.mp hplace
      exact ⟨l, m, hm, hconv, hseq⟩
  · exact hlog.unique.published ⟨m, hl, MessageRow.place_eq_some.mpr ⟨hconv, hseq⟩⟩
      ⟨m', hl', MessageRow.place_eq_some.mpr ⟨hconv', rfl⟩⟩
  · obtain ⟨-, hrec, -⟩ := hf.come h₀ .nil
    refine ⟨hrec.seqs, fun m hm => ?_, fun n' received' next' d hf' l row hrow hconv hle => ?_⟩
    · obtain ⟨-, row, hrow, hplace⟩ := hrec.published m hm
      obtain ⟨hconv, hseq⟩ := MessageRow.place_eq_some.mp hplace
      exact ⟨row, hrow, hconv, hseq⟩
    · obtain ⟨hrun, hrec', hfar⟩ := hf'.come hc hrec
      have hpub : c.db.messages.Published MessageRow.place l (k, row.seq) :=
        ⟨row, hrow, MessageRow.place_eq_some.mpr ⟨hconv, rfl⟩⟩
      obtain ⟨-, hlast⟩ := (published_iff hlog).mp ⟨l, hpub⟩
      have hgrows := grows_of_reachable hc hrun
      exact hrec'.once (tracked_of_reachable (hc.trans hrun)).1
        (published_of_grown hgrows.messages hpub) (by omega)

/-! ### A run -/

/-- A marketplace in which account `1` owns every listing. -/
def oneOwner : Env where
  messagingTarget _ _ _ := some ⟨some 1, true⟩
  claimedBy _ _ _ := none
  openJobPoster _ _ _ := none

/-- Account `0` writes to account `1`. -/
def opened : Pool :=
  afterRun (messagingService oneOwner)
    (.arrive 0 (.startWithContractor 0 7) :: List.replicate 8 (.run 0) ++
      .arrive 1 (.send 0 0 "hello".toList) :: List.replicate 7 (.run 1))
    (.initial {}) (by decide +kernel)

/-- Account `1` has polled once. -/
def polledOnce : Pool :=
  afterRun (messagingService oneOwner) (List.replicate 2 (.run 2))
    (asked oneOwner 2 0 1 none none opened) (by decide +kernel)

/-- Account `0` writes again, and removes its first message. -/
def wroteAgain : Pool :=
  afterRun (messagingService oneOwner)
    (.arrive 3 (.send 0 0 "again".toList) :: List.replicate 7 (.run 3) ++
      .arrive 4 (.deleteMessage 0 1 0) :: List.replicate 3 (.run 4))
    polledOnce (by decide +kernel)

/-- Account `1` has polled once more. -/
def polledTwice : Pool :=
  afterRun (messagingService oneOwner) (List.replicate 2 (.run 5))
    (asked oneOwner 5 0 1 (some 1) (some 1) wroteAgain) (by decide +kernel)

/-- The two messages as they were received. -/
def twoMessages : List Message :=
  [⟨1, 0, 1, 0, "hello".toList, 0, false⟩, ⟨3, 0, 2, 0, "again".toList, 0, false⟩]

theorem messages_delivered_polledTwice :
    Followed oneOwner 0 1 opened [] 0 1 (twoMessages.take 1) 1 wroteAgain ∧
      Followed oneOwner 0 1 wroteAgain (twoMessages.take 1) 1 1 twoMessages 2 polledTwice ∧
      (twoMessages.filter fun m => m.id = 3).length = 1 := by
  have hopened : Run oneOwner (.initial {}) opened := reachable_afterRun _
  have hagain : Run oneOwner polledOnce wroteAgain := reachable_afterRun _
  have hidle : opened.procs 2 = .idle ∧ wroteAgain.procs 5 = .idle := by decide +kernel
  have hserved : polledOnce.Served 2 (.poll 0 1 none none) (.ok (.page (twoMessages.take 1) 1)) ∧
      polledTwice.Served 5 (.poll 0 1 (some 1) (some 1)) (.ok (.page (twoMessages.drop 1) 2)) := by
    decide +kernel
  have hfirst : Followed oneOwner 0 1 opened [] 0 1 (twoMessages.take 1) 1 wroteAgain :=
    .wait (.poll .start hidle.1 rfl (reachable_afterRun _) hserved.1) hagain
  have hsecond : Followed oneOwner 0 1 wroteAgain (twoMessages.take 1) 1 1 twoMessages 2 polledTwice :=
    .poll .start hidle.2 rfl (reachable_afterRun _) hserved.2
  have hrun : Run oneOwner (.initial {}) wroteAgain :=
    hopened.trans ((run_asked hidle.1).trans ((reachable_afterRun _).trans hagain))
  obtain ⟨row, hrow, hplace⟩ : ∃ row, (wroteAgain.db.messages.slot 3).committed = some row ∧
      row.conversationId = 0 ∧ row.seq = 2 := by
    have hany : ((wroteAgain.db.messages.slot 3).committed.any fun row =>
        row.conversationId = 0 && row.seq = 2) = true := by
      decide +kernel
    simpa [Option.any_eq_true] using hany
  refine ⟨hfirst, hsecond, ?_⟩
  obtain ⟨-, hdelivered⟩ := messages_delivered hrun
  obtain ⟨-, -, hall⟩ := hdelivered 0 1 opened 1 _ 1 hopened hfirst
  exact hall 1 _ 2 polledTwice hsecond 3 row hrow hplace.1 (by omega)

end Messaging

end Marketplace
