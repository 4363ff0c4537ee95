import Marketplace.Maintenance.Passes

/-!
# Rows that no operation needs

What an operation does with a row that is finished: it does not accept it, now or later, and if it
writes it all the same, the row is finished as before. So a table and the same table without some
finished rows answer the same and stay in step, statement by statement.
-/

namespace Marketplace.Maintenance

open Retention

variable {c c' : ℤ} {now : Instant}

/-! ### Writing -/

section Writing

variable {α β : Type} {r r' : Record α} {f : α → Option (β × α)} {b : β} {id : Uuid}

theorem Record.write_eq (h : r.write now f = some (b, r')) :
    ∃ a, f r.row = some (b, a) ∧ r' = ⟨r.id, a, now⟩ := by
  obtain ⟨⟨b', a⟩, ha, he⟩ := Option.map_eq_some_iff.mp h
  cases he
  exact ⟨a, ha, rfl⟩

theorem Record.write_none (h : f r.row = none) : r.write now f = none := by
  rw [Record.write, h, Option.map_none]

theorem Record.only_eq {f : Record α → Option (β × Record α)}
    (h : Record.only id f r = some (b, r')) : f r = some (b, r') := by
  rw [Record.only] at h
  split at h
  · exact h
  · cases h

theorem Record.only_none {f : Record α → Option (β × Record α)} (h : r.id = id → f r = none) :
    Record.only id f r = none := by
  rw [Record.only]
  split
  · rename_i hid
    exact h hid
  · rfl

theorem acting_eq {act : Option α → β × Option α} {a a' : α} (h : acting act a = some (b, a')) :
    (act (some a)).2 = some a' := by
  obtain ⟨a₁, ha, he⟩ := Option.map_eq_some_iff.mp h
  cases he
  exact ha

end Writing

/-! ### Sessions -/

section Sessions

variable {xs ys : List (Record Session)}

/-- What the two tables differ in. -/
abbrev SessionDead (c : ℤ) (r : Record Session) : Prop := sessionOver c r = true

theorem sessionOver_iff {r : Record Session} :
    sessionOver c r = true ↔
      (r.row.absoluteExpiresAt : ℤ) < c ∨ ∃ p, r.row.revoked = some p ∧ (p.1 : ℤ) < c := by
  simp [sessionOver, Option.any_eq_true]

theorem sessionOver_mono (hc : c ≤ c') {r : Record Session} (h : SessionDead c r) :
    SessionDead c' r := by
  rw [SessionDead, sessionOver_iff] at *
  rcases h with h | ⟨p, hp, h⟩
  · exact .inl (h.trans_le hc)
  · exact .inr ⟨p, hp, h.trans_le hc⟩

/-- **A session that is over is not live**, now or later. -/
theorem not_live_of_sessionOver (hc : c ≤ now) {r : Record Session} (h : SessionDead c r) :
    r.row.live now = false := by
  rw [SessionDead, sessionOver_iff] at h
  rcases h with h | ⟨p, hp, -⟩
  · have hage : ¬ now < r.row.absoluteExpiresAt :=
      Nat.not_lt.mpr (Int.ofNat_le.mp (h.le.trans hc))
    simp [Session.live, hage]
  · simp [Session.live, hp]

/-- A later version of a session is over if the session is. -/
theorem sessionOver_of_act {r : Record Session} {s : Session} (h : SessionDead c r)
    (hact : Sessions.Act (some r.row) s) : SessionDead c ⟨r.id, s, now⟩ := by
  rw [SessionDead, sessionOver_iff] at *
  generalize hrow : r.row = row at hact h
  cases hact with
  | revoked _ reason at_ hopen =>
    rcases h with h | ⟨p, hp, -⟩
    · exact .inl h
    · rw [hopen] at hp
      cases hp

variable (h : Thinned (SessionDead c) xs ys)
include h

theorem findLive_eq (hc : c ≤ now) (tokenHash : Digest) :
    findLive now xs tokenHash = findLive now ys tokenHash :=
  h.find?_eq fun r _ hdead => by rw [not_live_of_sessionOver hc hdead, Bool.and_false]

theorem touch_thinned (sessionId : Uuid) (idleExpiresAt : Instant) (minIntervalSecs : ℕ) :
    Thinned (SessionDead c) (touch now xs sessionId idleExpiresAt minIntervalSecs)
      (touch now ys sessionId idleExpiresAt minIntervalSecs) := by
  refine h.update_snd fun r _ hdead b r' hr' => ?_
  obtain ⟨s, hs, rfl⟩ := Record.write_eq (Record.only_eq hr')
  split at hs
  · cases hs
    exact hdead
  · cases hs

variable (now) in
theorem insertSession_both {id : Uuid} {session : Session}
    (hnew : ∀ r ∈ ys, r.id ≠ id ∧ r.row.tokenHash ≠ session.tokenHash) :
    (insertSession now xs id session).1 = (insertSession now ys id session).1 ∧
      Thinned (SessionDead c) (insertSession now xs id session).2
        (insertSession now ys id session).2 :=
  h.insert_both fun r hr _ => by simp [hnew r hr]

theorem revoke_thinned (sessionId : Uuid) (reason : RevocationReason) :
    Thinned (SessionDead c) (revoke now xs sessionId reason) (revoke now ys sessionId reason) := by
  refine h.update_snd fun r _ hdead b r' hr' => ?_
  obtain ⟨s, hs, rfl⟩ := Record.write_eq (Record.only_eq hr')
  exact sessionOver_of_act hdead (Sessions.act_of_query (acting_eq hs))

theorem revokeAllForUser_thinned (userId : Uuid) (reason : RevocationReason)
    (except : Option Uuid) :
    Thinned (SessionDead c) (revokeAllForUser now xs userId reason except)
      (revokeAllForUser now ys userId reason except) := by
  refine h.update_snd fun r _ hdead b r' hr' => ?_
  obtain ⟨s, hs, rfl⟩ := Record.write_eq hr'
  exact sessionOver_of_act hdead (Sessions.act_of_query (acting_eq hs))

end Sessions

/-! ### Codes and links -/

section Tokens

variable {xs ys : List (Record AuthToken)}

/-- What the two tables differ in. -/
abbrev TokenDead (c : ℤ) (r : Record AuthToken) : Prop := tokenOver c r = true

theorem tokenOver_iff {r : Record AuthToken} :
    tokenOver c r = true ↔
      (r.row.expiresAt : ℤ) < c ∨ ∃ t, r.row.consumedAt = some t ∧ (t : ℤ) < c := by
  simp [tokenOver, Option.any_eq_true]

theorem tokenOver_mono (hc : c ≤ c') {r : Record AuthToken} (h : TokenDead c r) :
    TokenDead c' r := by
  rw [TokenDead, tokenOver_iff] at *
  rcases h with h | ⟨t, ht, h⟩
  · exact .inl (h.trans_le hc)
  · exact .inr ⟨t, ht, h.trans_le hc⟩

/-- **A token that is over cannot be spent**, now or later. -/
theorem not_live_of_tokenOver (hc : c ≤ now) {r : Record AuthToken} (h : TokenDead c r) :
    r.row.live now = false := by
  rw [TokenDead, tokenOver_iff] at h
  rcases h with h | ⟨t, ht, -⟩
  · have hage : ¬ now < r.row.expiresAt := Nat.not_lt.mpr (Int.ofNat_le.mp (h.le.trans hc))
    simp [AuthToken.live, hage]
  · simp [AuthToken.live, ht]

/-- A later version of a token is over if the token is. -/
theorem tokenOver_of_act {r : Record AuthToken} {t : AuthToken} (h : TokenDead c r)
    (hact : AuthTokens.Act (some r.row) t) : TokenDead c ⟨r.id, t, now⟩ := by
  rw [TokenDead, tokenOver_iff] at *
  generalize hrow : r.row = row at hact h
  cases hact with
  | consumed _ at_ hopen | guessed _ at_ hopen =>
    rcases h with h | ⟨t, ht, -⟩
    · exact .inl h
    · rw [hopen] at ht
      cases ht

/-- A statement that only spends live tokens has nothing to do with one that is over. -/
theorem acting_verifyCode_none (hc : c ≤ now) {r : Record AuthToken} (h : TokenDead c r)
    {k : Uuid} {purpose : Purpose} {codeHash : Digest} {maxAttempts : ℕ} :
    acting (AuthTokens.Query.verifyCode k purpose codeHash maxAttempts now).act r.row = none := by
  have hlive := not_live_of_tokenOver hc h
  have hclosed : ¬ (r.row.purpose = purpose ∧ r.row.consumedAt = none ∧ now < r.row.expiresAt) := by
    rintro ⟨-, hopen, hage⟩
    simp [AuthToken.live, hopen, hage] at hlive
  simp only [acting, AuthTokens.Query.act, if_neg hclosed, Option.map_none]

theorem acting_consumeLink_none (hc : c ≤ now) {r : Record AuthToken} (h : TokenDead c r)
    {k : Uuid} {tokenHash : Digest} {purpose : Purpose} :
    acting (AuthTokens.Query.consumeLink k tokenHash purpose now).act r.row = none := by
  have hlive := not_live_of_tokenOver hc h
  have hclosed : ¬ (r.row.tokenHash = tokenHash ∧ r.row.purpose = purpose ∧
      r.row.consumedAt = none ∧ now < r.row.expiresAt) := by
    rintro ⟨-, -, hopen, hage⟩
    simp [AuthToken.live, hopen, hage] at hlive
  simp only [acting, AuthTokens.Query.act, ReadCommitted.Table.updating, if_neg hclosed,
    Option.map_none]

/-- A token that is consumed keeps its identifier and its digest. -/
theorem forall_consumeOpen {id userId : Uuid} {purpose : Purpose} {tokenHash : Digest}
    (hnew : ∀ r ∈ ys, r.id ≠ id ∧ r.row.tokenHash ≠ tokenHash) :
    ∀ r ∈ (update (fun r => r.write now
        (acting (AuthTokens.Query.consumeOpen r.id userId purpose now).act)) ys).2,
      r.id ≠ id ∧ r.row.tokenHash ≠ tokenHash := by
  refine forall_update hnew fun r b r' hr' hr => ?_
  obtain ⟨t, ht, rfl⟩ := Record.write_eq hr'
  obtain ⟨t', ht', hkept⟩ :=
    AuthTokens.Later.act (AuthTokens.act_of_query (acting_eq ht)) r.row rfl
  cases ht'
  exact ⟨hr.1, by rw [hkept.tokenHash]; exact hr.2⟩

variable (h : Thinned (TokenDead c) xs ys)
include h

variable (now) in
theorem issue_both {id : Uuid} (userId : Uuid) (purpose : Purpose) {tokenHash : Digest}
    (ttlSecs : ℕ) (hnew : ∀ r ∈ ys, r.id ≠ id ∧ r.row.tokenHash ≠ tokenHash) :
    (issue now xs id userId purpose tokenHash ttlSecs).1 =
        (issue now ys id userId purpose tokenHash ttlSecs).1 ∧
      Thinned (TokenDead c) (issue now xs id userId purpose tokenHash ttlSecs).2
        (issue now ys id userId purpose tokenHash ttlSecs).2 := by
  have hclosed := h.update_snd (f := fun r => r.write now
      (acting (AuthTokens.Query.consumeOpen r.id userId purpose now).act))
    fun r _ hdead b r' hr' => by
      obtain ⟨t, ht, rfl⟩ := Record.write_eq hr'
      exact tokenOver_of_act hdead (AuthTokens.act_of_query (acting_eq ht))
  have hclash : ∀ r ∈ (update (fun r => r.write now
      (acting (AuthTokens.Query.consumeOpen r.id userId purpose now).act)) ys).2, TokenDead c r →
      (decide (r.id = id) || decide (r.row.tokenHash = tokenHash)) = false :=
    fun r hr _ => by simp [forall_consumeOpen hnew r hr]
  obtain ⟨hsame, hboth⟩ := hclosed.insert_both hclash
    (a := ⟨id, { userId := userId, purpose := purpose, tokenHash := tokenHash
                 expiresAt := now + ttlSecs * micros }, now⟩)
  simp only [issue, hsame]
  refine ⟨trivial, ?_⟩
  split
  · exact hboth
  · exact h

theorem verifyCode_both (hc : c ≤ now) (challengeId : Uuid) (purpose : Purpose)
    (codeHash : Digest) (maxAttempts : ℕ) :
    (verifyCode now xs challengeId purpose codeHash maxAttempts).1 =
        (verifyCode now ys challengeId purpose codeHash maxAttempts).1 ∧
      Thinned (TokenDead c) (verifyCode now xs challengeId purpose codeHash maxAttempts).2
        (verifyCode now ys challengeId purpose codeHash maxAttempts).2 := by
  obtain ⟨hsame, hboth⟩ := h.update_both (f := Record.only challengeId (Record.write now (acting
      (AuthTokens.Query.verifyCode challengeId purpose codeHash maxAttempts now).act)))
    fun r _ hdead => Record.only_none fun _ => Record.write_none (acting_verifyCode_none hc hdead)
  exact ⟨by rw [verifyCode, verifyCode, hsame], hboth⟩

theorem challengeUser_eq (hc : c ≤ now) (challengeId : Uuid) :
    challengeUser now xs challengeId = challengeUser now ys challengeId := by
  rw [challengeUser, challengeUser, h.find?_eq fun r _ hdead => by
    rw [not_live_of_tokenOver hc hdead, Bool.and_false]]

theorem peekLink_eq (hc : c ≤ now) (tokenHash : Digest) (purpose : Purpose) :
    peekLink now xs tokenHash purpose = peekLink now ys tokenHash purpose := by
  rw [peekLink, peekLink, h.find?_eq fun r _ hdead => by
    rw [not_live_of_tokenOver hc hdead, Bool.and_false]]

theorem consumeLink_both (hc : c ≤ now) (tokenHash : Digest) (purpose : Purpose) :
    (consumeLink now xs tokenHash purpose).1 = (consumeLink now ys tokenHash purpose).1 ∧
      Thinned (TokenDead c) (consumeLink now xs tokenHash purpose).2
        (consumeLink now ys tokenHash purpose).2 := by
  obtain ⟨hsame, hboth⟩ := h.update_both (f := fun r => r.write now
      (acting (AuthTokens.Query.consumeLink r.id tokenHash purpose now).act))
    fun r _ hdead => Record.write_none (acting_consumeLink_none hc hdead)
  exact ⟨by rw [consumeLink, consumeLink, hsame], hboth⟩

end Tokens

/-! ### Claims, and how the work went -/

section Claims

variable {α β : Type} {dead : Record α → Prop} {xs ys : List (Record α)}

theorem claimed_eq {due : α → Bool} (h : Thinned dead xs ys)
    (hdue : ∀ r ∈ ys, dead r → due r.row = false) (nextAttemptAt : α → Instant) (limit : ℕ)
    (view : View) :
    claimed due nextAttemptAt limit view xs = claimed due nextAttemptAt limit view ys := by
  rw [claimed, claimed, h.filter_eq hdue]

variable (now) in
/-- **A statement about a row that is not over.** -/
theorem only_both {f : α → Option (β × α)} {id : Uuid} (h : Thinned dead xs ys)
    (hid : ∀ r ∈ ys, r.id = id → ¬ dead r) :
    (update (Record.only id (Record.write now f)) xs).1 =
        (update (Record.only id (Record.write now f)) ys).1 ∧
      Thinned dead (update (Record.only id (Record.write now f)) xs).2
        (update (Record.only id (Record.write now f)) ys).2 :=
  h.update_both fun r hr hdead => Record.only_none fun heq => absurd hdead (hid r hr heq)

variable (now) in
/-- **A statement that passes over the rows that are over.** -/
theorem write_both {f : α → Option (β × α)} (h : Thinned dead xs ys)
    (hf : ∀ r ∈ ys, dead r → f r.row = none) :
    (update (Record.write now f) xs).1 = (update (Record.write now f) ys).1 ∧
      Thinned dead (update (Record.write now f) xs).2 (update (Record.write now f) ys).2 :=
  h.update_both fun r hr hdead => Record.write_none (hf r hr hdead)

end Claims

/-! ### The geocoding queue -/

section Queue

open Registry

variable {xs ys : List (Record GeocodeJob)}

/-- What the two tables differ in. -/
abbrev JobDead (c : ℤ) (r : Record GeocodeJob) : Prop := jobOver c r = true

theorem jobOver_iff {r : Record GeocodeJob} :
    jobOver c r = true ↔ r.row.isOpen = false ∧ (r.updatedAt : ℤ) < c := by
  rw [jobOver, Bool.and_eq_true, decide_eq_true_iff, decide_eq_true_iff, GeocodeJob.isOpen]
  cases r.row.status <;> simp

theorem jobOver_mono (hc : c ≤ c') {r : Record GeocodeJob} (h : JobDead c r) : JobDead c' r := by
  rw [JobDead, jobOver_iff] at *
  exact ⟨h.1, h.2.trans_le hc⟩

/-- **A job that is over is not open.** -/
theorem not_open_of_jobOver {r : Record GeocodeJob} (h : JobDead c r) : r.row.isOpen = false :=
  (jobOver_iff.mp h).1

theorem not_due_of_not_open {job : GeocodeJob} (h : job.isOpen = false) : job.due now = false := by
  rw [GeocodeJob.isOpen, Bool.or_eq_false_iff] at h
  rw [GeocodeJob.due, h.1, Bool.false_and]

theorem not_stalled_of_not_open {job : GeocodeJob} {staleAfterSecs : ℕ} (h : job.isOpen = false) :
    job.stalled staleAfterSecs now = false := by
  rw [GeocodeJob.isOpen, Bool.or_eq_false_iff] at h
  rw [GeocodeJob.stalled, h.2, Bool.false_and]

theorem not_clashes_of_not_open {job other : GeocodeJob} (h : other.isOpen = false) :
    job.clashes other = false := by
  rw [GeocodeJob.clashes, h, Bool.and_false, Bool.false_and]

variable (h : Thinned (JobDead c) xs ys)
include h

variable (now) in
theorem enqueueJob_both {id : Uuid} (contractorId : Uuid) (addressHash : Digest)
    (hnew : ∀ r ∈ ys, r.id ≠ id) :
    (enqueueJob now xs id contractorId addressHash).1 =
        (enqueueJob now ys id contractorId addressHash).1 ∧
      Thinned (JobDead c) (enqueueJob now xs id contractorId addressHash).2
        (enqueueJob now ys id contractorId addressHash).2 :=
  h.insert_both fun r hr hdead => by
    rw [not_clashes_of_not_open (not_open_of_jobOver hdead), Bool.or_false]
    exact decide_eq_false (hnew r hr)

variable (now) in
theorem claimJobs_both (worker : Text) (limit : ℕ) (view : View) :
    (claimJobs now xs worker limit view).1 = (claimJobs now ys worker limit view).1 ∧
      Thinned (JobDead c) (claimJobs now xs worker limit view).2
        (claimJobs now ys worker limit view).2 := by
  have hdue : ∀ r ∈ ys, JobDead c r → GeocodeJob.due now r.row = false :=
    fun r _ hdead => not_due_of_not_open (not_open_of_jobOver hdead)
  rw [claimJobs, claimJobs, claimed_eq h hdue]
  refine h.update_both fun r hr hdead => ?_
  split
  · refine Record.write_none ?_
    rw [GeocodeJob.claim, hdue r hr hdead]
    rfl
  · rfl

variable (now) in
theorem markJobFailed_both {jobId : Uuid} (hid : ∀ r ∈ ys, r.id = jobId → ¬ JobDead c r)
    (error : Text) (backoffSecs maxAttempts : ℕ) :
    (markJobFailed now xs jobId error backoffSecs maxAttempts).1 =
        (markJobFailed now ys jobId error backoffSecs maxAttempts).1 ∧
      Thinned (JobDead c) (markJobFailed now xs jobId error backoffSecs maxAttempts).2
        (markJobFailed now ys jobId error backoffSecs maxAttempts).2 := by
  have hfind : (xs.find? fun r => r.id = jobId) = ys.find? fun r => r.id = jobId :=
    h.find?_eq fun r hr hdead => decide_eq_false fun heq => hid r hr heq hdead
  have hblocked : blocked xs = blocked ys := by
    funext r p
    refine h.any_eq fun r' _ hdead => ?_
    rw [not_clashes_of_not_open (not_open_of_jobOver hdead), Bool.and_false]
  rw [markJobFailed, markJobFailed, hfind, hblocked]
  split
  · exact ⟨rfl, h⟩
  · split
    · exact ⟨rfl, h⟩
    · split
      · exact ⟨rfl, h⟩
      · exact ⟨rfl, (only_both now h hid).2⟩

variable (now) in
theorem requeueJobs_both (staleAfterSecs : ℕ) :
    (requeueJobs now xs staleAfterSecs).1 = (requeueJobs now ys staleAfterSecs).1 ∧
      Thinned (JobDead c) (requeueJobs now xs staleAfterSecs).2
        (requeueJobs now ys staleAfterSecs).2 := by
  obtain ⟨hsame, hboth⟩ := write_both now
    (f := GeocodeJob.requeue (staleAfterSecs * micros) now) h fun r _ hdead => by
      rw [GeocodeJob.requeue, not_stalled_of_not_open (not_open_of_jobOver hdead)]
      rfl
  exact ⟨by rw [requeueJobs, requeueJobs, hsame], hboth⟩

end Queue

/-! ### The outbox -/

section Outbox

open Mail

variable {xs ys : List (Record Message)}

/-- What the two tables differ in. -/
abbrev EmailDead (c : ℤ) (r : Record Message) : Prop := emailOver c r = true

theorem emailOver_iff {r : Record Message} :
    emailOver c r = true ↔ r.row.settled = true ∧ (r.updatedAt : ℤ) < c := by
  rw [emailOver, Bool.and_eq_true, decide_eq_true_iff, decide_eq_true_iff, Message.settled]
  cases r.row.status <;> simp

theorem emailOver_mono (hc : c ≤ c') {r : Record Message} (h : EmailDead c r) : EmailDead c' r := by
  rw [EmailDead, emailOver_iff] at *
  exact ⟨h.1, h.2.trans_le hc⟩

/-- **A message that is over is settled.** -/
theorem settled_of_emailOver {r : Record Message} (h : EmailDead c r) : r.row.settled = true :=
  (emailOver_iff.mp h).1

theorem not_due_of_settled {m : Message} (h : m.settled = true) : m.due now = false := by
  rw [Message.settled] at h
  rw [Message.due]
  cases hstatus : m.status <;> simp_all

theorem not_stalled_of_settled {m : Message} {staleAfterSecs : ℕ} (h : m.settled = true) :
    m.stalled staleAfterSecs now = false := by
  rw [Message.settled] at h
  rw [Message.stalled]
  cases hstatus : m.status <;> simp_all

variable (h : Thinned (EmailDead c) xs ys)
include h

variable (now) in
theorem enqueueEmail_both {id : Uuid} (email : NewEmail) (hnew : ∀ r ∈ ys, r.id ≠ id) :
    (enqueueEmail now xs id email).1 = (enqueueEmail now ys id email).1 ∧
      Thinned (EmailDead c) (enqueueEmail now xs id email).2 (enqueueEmail now ys id email).2 :=
  h.insert_both fun r hr _ => decide_eq_false (hnew r hr)

variable (now) in
theorem claimEmails_both (worker : Text) (limit : ℕ) (view : View) :
    (claimEmails now xs worker limit view).1 = (claimEmails now ys worker limit view).1 ∧
      Thinned (EmailDead c) (claimEmails now xs worker limit view).2
        (claimEmails now ys worker limit view).2 := by
  have hdue : ∀ r ∈ ys, EmailDead c r → Message.due now r.row = false :=
    fun r _ hdead => not_due_of_settled (settled_of_emailOver hdead)
  rw [claimEmails, claimEmails, claimed_eq h hdue]
  refine h.update_both fun r hr hdead => ?_
  split
  · refine Record.write_none ?_
    rw [Message.claim, hdue r hr hdead]
    rfl
  · rfl

variable (now) in
theorem markEmailFailed_both {messageId : Uuid}
    (hid : ∀ r ∈ ys, r.id = messageId → ¬ EmailDead c r) (error : Text)
    (backoffSecs maxAttempts : ℕ) :
    (markEmailFailed now xs messageId error backoffSecs maxAttempts).1 =
        (markEmailFailed now ys messageId error backoffSecs maxAttempts).1 ∧
      Thinned (EmailDead c) (markEmailFailed now xs messageId error backoffSecs maxAttempts).2
        (markEmailFailed now ys messageId error backoffSecs maxAttempts).2 := by
  obtain ⟨hsame, hboth⟩ := only_both now
    (f := Message.markFailed error (backoffSecs * micros) maxAttempts now) h hid
  exact ⟨by rw [markEmailFailed, markEmailFailed, hsame], hboth⟩

variable (now) in
theorem requeueEmails_both (staleAfterSecs : ℕ) :
    (requeueEmails now xs staleAfterSecs).1 = (requeueEmails now ys staleAfterSecs).1 ∧
      Thinned (EmailDead c) (requeueEmails now xs staleAfterSecs).2
        (requeueEmails now ys staleAfterSecs).2 := by
  obtain ⟨hsame, hboth⟩ := write_both now
    (f := Message.requeue (staleAfterSecs * micros) now) h fun r _ hdead => by
      rw [Message.requeue, not_stalled_of_settled (settled_of_emailOver hdead)]
      rfl
  exact ⟨by rw [requeueEmails, requeueEmails, hsame], hboth⟩

end Outbox

/-! ### Counters -/

section Counters

open RateLimit

variable {limits : Limits} {s t : Table} {h : ℤ}

/-- **The first counters are the second ones** without some of those whose window was over at `h`. -/
def Swept (h : ℤ) (s t : Table) : Prop :=
  ∀ k, s k = t k ∨ s k = none ∧ ∃ row, t k = some row ∧ row.expiresAt ≤ h

/-- Counters expire when their windows end. -/
def Ends (limits : Limits) (t : Table) : Prop :=
  ∀ k row, t k = some row → row.expiresAt = k.2 + limits.window k.1

/-- **A request is counted in a window that is not over yet.** -/
theorem lt_windowStart_add {w : ℤ} (now : ℤ) (hw : second ≤ w) : now < windowStart w now + w := by
  have hw : 10 ^ 6 ≤ w := hw
  have hpos : 0 < w / 10 ^ 6 := by omega
  have hsecs : windowSecs w = w / 10 ^ 6 := max_eq_left (by rw [second]; omega)
  rw [windowStart, hsecs, second]
  have hmod : now / 10 ^ 6 % (w / 10 ^ 6) < w / 10 ^ 6 := Int.emod_lt_of_pos _ hpos
  generalize now / 10 ^ 6 % (w / 10 ^ 6) = m at hmod
  omega

/-- The window that a counter of the key `k` counts is over, and no request is counted there. -/
theorem key_ne_of_le {k : Key} {row : Counter} (hends : Ends limits t) (hk : t k = some row)
    (hover : row.expiresAt ≤ h) {later : ℤ} (hlater : h ≤ later) (bucket : Digest) :
    keyOf limits.window bucket later ≠ k := by
  rintro rfl
  have hexpires : row.expiresAt = windowStart (limits.window bucket) later + limits.window bucket :=
    hends _ row hk
  have hlt := lt_windowStart_add later (limits.long bucket)
  omega

/-- A counter that a request is counted for is there in both tables, or in neither. -/
theorem Swept.eq_of_le (hs : Swept h s t) (hends : Ends limits t) {now : ℤ} (hnow : h ≤ now)
    (bucket : Digest) :
    s (keyOf limits.window bucket now) = t (keyOf limits.window bucket now) := by
  rcases hs (keyOf limits.window bucket now) with heq | ⟨-, row, hrow, hover⟩
  · exact heq
  · exact absurd rfl (key_ne_of_le hends hrow hover hnow bucket)

theorem Swept.update (hs : Swept h s t) (k : Key) (o : Option Counter) :
    Swept h (Function.update s k o) (Function.update t k o) := by
  intro l
  by_cases hl : l = k
  · subst hl
    exact .inl (by rw [Function.update_self, Function.update_self])
  · rw [Function.update_of_ne hl, Function.update_of_ne hl]
    exact hs l

theorem Swept.upsert (hs : Swept h s t) {k : Key} (hk : s k = t k) (expiresAt : ℤ) :
    (upsert s k expiresAt).2 = (upsert t k expiresAt).2 ∧
      Swept h (upsert s k expiresAt).1 (upsert t k expiresAt).1 := by
  rw [RateLimit.upsert, RateLimit.upsert, hk]
  split
  · exact ⟨rfl, hs⟩
  · split
    · exact ⟨rfl, hs.update k _⟩
    · split
      · exact ⟨rfl, hs.update k _⟩
      · exact ⟨rfl, hs⟩

theorem Ends.update (hends : Ends limits t) {k : Key} {row : Counter}
    (hrow : row.expiresAt = k.2 + limits.window k.1) :
    Ends limits (Function.update t k (some row)) := by
  intro l row' hl
  by_cases hlk : l = k
  · subst hlk
    rw [Function.update_self] at hl
    cases hl
    exact hrow
  · rw [Function.update_of_ne hlk] at hl
    exact hends l row' hl

theorem Ends.upsert (hends : Ends limits t) (k : Key) :
    Ends limits (upsert t k (k.2 + limits.window k.1)).1 := by
  rw [RateLimit.upsert]
  split
  · exact hends
  · split
    · exact hends.update rfl
    · rename_i row hrow
      split
      · exact hends.update (hends k row hrow)
      · exact hends

/-- **A request is counted the same**, if it comes after what was swept. -/
theorem enforce_both (hs : Swept h s t) (hends : Ends limits t) {now : ℤ} (hnow : h ≤ now)
    (bucket : Digest) :
    (enforce s bucket (limits.limit bucket) (limits.window bucket) now).2 =
        (enforce t bucket (limits.limit bucket) (limits.window bucket) now).2 ∧
      Swept h (enforce s bucket (limits.limit bucket) (limits.window bucket) now).1
        (enforce t bucket (limits.limit bucket) (limits.window bucket) now).1 ∧
      Ends limits (enforce t bucket (limits.limit bucket) (limits.window bucket) now).1 := by
  have hk := hs.eq_of_le hends hnow bucket
  have hcount : (count s bucket (limits.window bucket) now).2 =
        (count t bucket (limits.window bucket) now).2 ∧
      Swept h (count s bucket (limits.window bucket) now).1
        (count t bucket (limits.window bucket) now).1 ∧
      Ends limits (count t bucket (limits.window bucket) now).1 := by
    rw [count, count]
    split
    · exact ⟨rfl, hs, hends⟩
    · obtain ⟨hsame, hswept⟩ := hs.upsert hk
        (windowStart (limits.window bucket) now + limits.window bucket)
      exact ⟨hsame, hswept, hends.upsert (keyOf limits.window bucket now)⟩
  exact ⟨by rw [enforce, enforce, hit, hit]; dsimp only; rw [hcount.1], hcount.2⟩

/-- **A sweep deletes nothing but counters whose window is over.** -/
theorem Swept.sweepExpired (hs : Swept h s t) {now : ℤ} (hnow : now ≤ h) (batch : ℕ)
    (found : List Key) : Swept h (sweepExpired s now batch found) t := by
  intro k
  rw [RateLimit.sweepExpired]
  split
  · rename_i hk
    obtain ⟨row, hrow, hover⟩ := mem_victims hk
    refine .inr ⟨rfl, row, ?_, hover.trans hnow⟩
    rcases hs k with heq | ⟨hnone, -⟩
    · rw [← heq, hrow]
    · rw [hnone] at hrow
      cases hrow
  · exact hs k

end Counters

end Marketplace.Maintenance
