import Marketplace.Auth.Footprint

/-!
# The lockout

Eight failures in a row lock an account for a quarter of an hour. What the counter and
the lock of a credential are supposed to be is a function of its history
(`Marketplace.tally`): a successful verification, a replacement of the password and the
end of a lock start the count again, and nothing else does.

A login that finds an elapsed lock clears it in a statement that does not look at the
row again, and so may clear what others have written since. The proviso of this file
(`Marketplace.clearsElapsed`) is that it finds what it read.
-/

namespace Marketplace

open ReadCommitted

variable {env : Env} {i j : ℕ} {db db' : Db} {α β : Type}

/-! ### The count and the lock, from the history -/

namespace CredentialEvent

/-- The failure counter was cleared, by a verification or because a lock had elapsed. -/
def restarts : CredentialEvent → Bool
  | cleared _ _ _ => true
  | _ => false

/-- The password was replaced. -/
def replacesPassword : CredentialEvent → Bool
  | changed _ _ _ => true
  | reset _ _ => true
  | _ => false

end CredentialEvent

/-- **The failures since the count was last started, and the lock they led to.** A lock
that has not elapsed is not cleared, whatever the event says. -/
def tally : List CredentialEvent → ℕ × Option Instant
  | [] => (0, none)
  | .failed _ now :: es =>
    ((tally es).1 + 1,
      if (tally es).1 + 1 ≥ maxFailedAttempts then some (now + lockoutSecs) else (tally es).2)
  | .cleared _ .elapsed now :: es => if (tally es).2.any (· ≤ now) then (0, none) else tally es
  | .rehashed _ _ _ :: es => tally es
  | _ :: _ => (0, none)

/-- When the newest failure was recorded. -/
def lastFailure : List CredentialEvent → Option Instant
  | [] => none
  | .failed _ now :: _ => some now
  | _ :: es => lastFailure es

/-- **An account with as many failures is locked**, for as long as a lock lasts from the
newest of them. -/
theorem locked_of_tally {es : List CredentialEvent} (h : maxFailedAttempts ≤ (tally es).1) :
    ∃ now, lastFailure es = some now ∧ (tally es).2 = some (now + lockoutSecs) := by
  have hpos : ¬ maxFailedAttempts ≤ 0 := by decide
  induction es with
  | nil => exact absurd h hpos
  | cons e es ih =>
    cases e with
    | failed who now =>
      refine ⟨now, rfl, ?_⟩
      have hmax : maxFailedAttempts ≤ (tally es).1 + 1 := h
      exact if_pos hmax
    | cleared who why now =>
      cases why with
      | verified => exact absurd h hpos
      | elapsed =>
        rw [tally] at h ⊢
        split at h
        · exact absurd h hpos
        · rename_i hnot
          rw [if_neg hnot]
          exact ih h
    | rehashed who old new => exact ih h
    | registered hash => exact absurd h hpos
    | changed who old new => exact absurd h hpos
    | reset who new => exact absurd h hpos

/-- The counter and the lock of the credential are those of its history. -/
def Credential.Tallied (c : Credential) : Prop := (c.failedAttempts, c.lockedUntil) = tally c.trail

/-! ### How a lock ends -/

/-- When a lock until `L` ends, after these events: a failure may have set it anew. -/
def LockEnd (L : Instant) (es : List CredentialEvent) (L' : Instant) : Prop :=
  L' = L ∨ ∃ who now, CredentialEvent.failed who now ∈ es ∧ L' = now + lockoutSecs

theorem LockEnd.trans {L L₁ L₂ : Instant} {es es' : List CredentialEvent} (h : LockEnd L es L₁)
    (h' : LockEnd L₁ es' L₂) : LockEnd L (es' ++ es) L₂ := by
  rcases h' with rfl | ⟨who, now, he, rfl⟩
  · rcases h with rfl | ⟨who, now, he, rfl⟩
    · exact Or.inl rfl
    · exact Or.inr ⟨who, now, List.mem_append_right _ he, rfl⟩
  · exact Or.inr ⟨who, now, List.mem_append_left _ he, rfl⟩

/-- **A lock until `L` has been lifted** by these events: the password was replaced, or
the lock has elapsed and was cleared. -/
def LiftedBy (t L : Instant) (es : List CredentialEvent) : Prop :=
  (∃ e ∈ es, e.replacesPassword = true) ∨
    (∃ L', LockEnd L es L' ∧ L' ≤ t) ∧ ∃ e ∈ es, e.restarts = true

namespace LiftedBy

variable {s t L : Instant} {es es' : List CredentialEvent}

theorem mono (h : LiftedBy s L es) (hst : s ≤ t) : LiftedBy t L es :=
  h.imp_right fun ⟨⟨L', hL, hend⟩, hres⟩ => ⟨⟨L', hL, hend.trans hst⟩, hres⟩

/-- More events do not undo it. -/
theorem append (h : LiftedBy t L es) : LiftedBy t L (es' ++ es) := by
  rcases h with ⟨e, he, hrep⟩ | ⟨⟨L', hL, hend⟩, e, he, hres⟩
  · exact Or.inl ⟨e, List.mem_append_right _ he, hrep⟩
  · exact Or.inr ⟨⟨L', hL.trans (Or.inl rfl), hend⟩, e, List.mem_append_right _ he, hres⟩

/-- What lifts the lock that there is by now. -/
theorem after {L₁ : Instant} (hL : LockEnd L es L₁) (h : LiftedBy t L₁ es') :
    LiftedBy t L (es' ++ es) := by
  rcases h with ⟨e, he, hrep⟩ | ⟨⟨L', hL', hend⟩, e, he, hres⟩
  · exact Or.inl ⟨e, List.mem_append_left _ he, hrep⟩
  · exact Or.inr ⟨⟨L', hL.trans hL', hend⟩, e, List.mem_append_left _ he, hres⟩

end LiftedBy

/-- **A later version of a credential**: every lock of the earlier one has been lifted, or
is still there, or was set anew. -/
def LockLe (t : Instant) (o o' : Option Credential) : Prop :=
  ∀ c, o = some c → ∃ c' newer, o' = some c' ∧ c'.trail = newer ++ c.trail ∧
    ∀ L, c.lockedUntil = some L →
      LiftedBy t L newer ∨ ∃ L', c'.lockedUntil = some L' ∧ LockEnd L newer L'

namespace LockLe

variable {s t : Instant} {o o₁ o₂ o₃ : Option Credential} {c c' : Credential}

theorem refl (t : Instant) (o : Option Credential) : LockLe t o o :=
  fun c hc => ⟨c, [], hc, rfl, fun L hL => Or.inr ⟨L, hL, Or.inl rfl⟩⟩

theorem trans (h : LockLe t o₁ o₂) (h' : LockLe t o₂ o₃) : LockLe t o₁ o₃ := by
  intro c hc
  obtain ⟨c₂, newer, hc₂, htrail, hlock⟩ := h c hc
  obtain ⟨c₃, newer', hc₃, htrail', hlock'⟩ := h' c₂ hc₂
  refine ⟨c₃, newer' ++ newer, hc₃, by rw [htrail', htrail, List.append_assoc], fun L hL => ?_⟩
  rcases hlock L hL with hlift | ⟨L', hL', hend⟩
  · exact Or.inl hlift.append
  · rcases hlock' L' hL' with hlift | ⟨L'', hL'', hend'⟩
    · exact Or.inl (hlift.after hend)
    · exact Or.inr ⟨L'', hL'', hend.trans hend'⟩

theorem mono (h : LockLe s o₁ o₂) (hst : s ≤ t) : LockLe t o₁ o₂ := by
  intro c hc
  obtain ⟨c₂, newer, hc₂, htrail, hlock⟩ := h c hc
  exact ⟨c₂, newer, hc₂, htrail, fun L hL => (hlock L hL).imp_left fun hlift => hlift.mono hst⟩

/-- One event that leaves the lock, or sets it anew. -/
theorem cons {e : CredentialEvent} (htrail : c'.trail = e :: c.trail)
    (hlock : ∀ L, c.lockedUntil = some L → ∃ L', c'.lockedUntil = some L' ∧ LockEnd L [e] L') :
    LockLe t (some c) (some c') := by
  intro c₀ hc₀
  obtain rfl := Option.some.inj hc₀
  exact ⟨c', [e], rfl, htrail, fun L hL => Or.inr (hlock L hL)⟩

/-- One event that clears an elapsed lock. -/
theorem cleared {e : CredentialEvent} (htrail : c'.trail = e :: c.trail) (he : e.restarts = true)
    (hend : ∀ L, c.lockedUntil = some L → L ≤ t) : LockLe t (some c) (some c') := by
  intro c₀ hc₀
  obtain rfl := Option.some.inj hc₀
  refine ⟨c', [e], rfl, htrail, fun L hL => Or.inl (Or.inr ⟨⟨L, Or.inl rfl, hend L hL⟩, ?_⟩)⟩
  exact ⟨e, List.mem_singleton_self e, he⟩

/-- One event that replaces the password. -/
theorem replaced {e : CredentialEvent} (htrail : c'.trail = e :: c.trail)
    (he : e.replacesPassword = true) : LockLe t (some c) (some c') := by
  intro c₀ hc₀
  obtain rfl := Option.some.inj hc₀
  exact ⟨c', [e], rfl, htrail, fun _ _ => Or.inl (Or.inl ⟨e, List.mem_singleton_self e, he⟩)⟩

end LockLe

/-! ### Statements -/

/-- **What a statement has to find** for the history to stay right: a lock that is
cleared because it has elapsed, has. -/
def Passwords.Query.Undisturbed : Passwords.Query β → Option Credential → Prop
  | .clearFailures _ .elapsed now, o => ∀ c, o = some c →
      (c.failedAttempts ≠ 0 ∨ c.lockedUntil.isSome = true) → ∃ L, c.lockedUntil = some L ∧ L ≤ now
  | _, _ => True

/-- What the service sees to: a statement that clears a lock comes after the instant it
judges it by, and one that clears it for a verification finds it elapsed. -/
def Passwords.Query.Timely (t : Instant) : Passwords.Query β → Option Credential → Prop
  | .clearFailures _ .elapsed now, _ => now ≤ t
  | .clearFailures _ .verified _, o => ∀ c L, o = some c → c.lockedUntil = some L → L ≤ t
  | _, _ => True

/-- **One statement keeps the tally.** -/
theorem tallied_of_query {q : Passwords.Query β} {t : Instant} {o : Option Credential}
    {c' : Credential} (hund : q.Undisturbed o) (htime : q.Timely t o) (h : (q.act i o).2 = some c')
    (ho : ∀ c, o = some c → c.Tallied) : c'.Tallied ∧ LockLe t o (some c') := by
  cases q with
  | findForUpdate u =>
    simp only [Passwords.Query.act] at h
    obtain ⟨c, b, rfl, hc⟩ := Table.updating_cases h
    cases hc
    exact ⟨ho c' rfl, LockLe.refl t _⟩
  | recordFailure u now =>
    simp only [Passwords.Query.act] at h
    obtain ⟨c, b, rfl, hc⟩ := Table.updating_cases h
    cases hc
    have htally : (c.failedAttempts, c.lockedUntil) = tally c.trail := ho c rfl
    constructor
    · show (_, _) = tally (.failed i now :: c.trail)
      rw [tally, ← htally]
    · refine LockLe.cons rfl fun L hL => ?_
      by_cases hmax : c.failedAttempts + 1 ≥ maxFailedAttempts
      · exact ⟨_, if_pos hmax, Or.inr ⟨i, now, List.mem_singleton_self _, rfl⟩⟩
      · exact ⟨L, (if_neg hmax).trans hL, Or.inl rfl⟩
  | clearFailures u why now =>
    simp only [Passwords.Query.act] at h
    obtain ⟨c, b, rfl, hc⟩ := Table.updating_cases h
    split at hc
    · rename_i hany
      cases hc
      have htally : (c.failedAttempts, c.lockedUntil) = tally c.trail := ho c rfl
      cases why with
      | verified => exact ⟨rfl, LockLe.cleared rfl rfl fun L hL => htime c L rfl hL⟩
      | elapsed =>
        obtain ⟨L, hL, hend⟩ := hund c rfl hany
        constructor
        · show (0, none) = tally (.cleared i .elapsed now :: c.trail)
          rw [tally, ← htally, hL, if_pos]
          exact decide_eq_true hend
        · refine LockLe.cleared rfl rfl fun L' hL' => ?_
          rw [hL] at hL'
          obtain rfl := Option.some.inj hL'
          exact hend.trans htime
    · cases hc
  | replaceHash u expected new =>
    simp only [Passwords.Query.act] at h
    obtain ⟨c, b, rfl, hc⟩ := Table.updating_cases h
    split at hc <;> cases hc
    exact ⟨rfl, LockLe.replaced rfl rfl⟩
  | upgradeHash u expected new =>
    simp only [Passwords.Query.act] at h
    obtain ⟨c, b, rfl, hc⟩ := Table.updating_cases h
    split at hc <;> cases hc
    have htally : (c.failedAttempts, c.lockedUntil) = tally c.trail := ho c rfl
    exact ⟨htally, LockLe.cons rfl fun L hL => ⟨L, hL, Or.inl rfl⟩⟩
  | setHash u new =>
    cases h
    refine ⟨rfl, fun c hc => ?_⟩
    subst hc
    exact LockLe.replaced rfl rfl c rfl

/-! ### The contract -/

/-- **The proviso on the lockout**: statements on credentials find what they have to. -/
def clearsElapsed : Proviso ℕ Db Query := fun i q db =>
  match q with
  | .credentials _ q => q.Undisturbed (db.credentials.row i q.key)
  | _ => True

/-- What the service sees to, of a query. -/
def Query.Timely (i : ℕ) (db : Db) : Query β → Prop
  | .credentials _ q => q.Timely db.clock (db.credentials.row i q.key)
  | _ => True

/-- The invariant: every credential is as its history says. -/
structure LockInv (db : Db) : Prop where
  /-- Counters and locks are those of the history. -/
  tallied : db.credentials.Holds fun _ => Credential.Tallied
  /-- Locks end as they have to. -/
  ordered : db.credentials.Ordered (LockLe db.clock)

/-- What a query does, as far as locks go. -/
structure LockStep (i : ℕ) (db db' : Db) : Prop where
  /-- Rows held by others do not move. -/
  moves : db.credentials.Moves i db'.credentials
  /-- Published locks end as they have to. -/
  grown : db.credentials.Grown (LockLe db'.clock) db'.credentials
  /-- A query takes no time. -/
  clock : db'.clock = db.clock

theorem LockInv.tick (h : LockInv db) (n : ℕ) : LockInv (db.tick n) :=
  ⟨h.tallied, fun u j v hv => (h.ordered u j v hv).mono (Nat.le_add_right _ n)⟩

/-- **One query keeps every credential as its history says.** -/
theorem LockInv.run {q : Query β} {b : β} (h : LockInv db) (hq : q.Timely i db)
    (hC : clearsElapsed i q db) (hr : Query.run env q i db = some (b, db')) :
    LockInv db' ∧ LockStep i db db' := by
  have hclock := (Query.effects hr).clock
  have heff : Table.Effect (fun _ o c' => (∀ c, o = some c → c.Tallied) →
      c'.Tallied ∧ LockLe db.clock o (some c')) i db.credentials db'.credentials := by
    cases q with
    | credentials m q =>
      obtain ⟨t, ht, rfl⟩ := Query.run_credentials hr
      exact Table.effect_of_modify ht fun c hput => tallied_of_query hC hq hput
    | tokens m q =>
      obtain ⟨t, -, rfl⟩ := Query.run_tokens hr
      exact .keep _
    | sessions q =>
      obtain ⟨t, -, rfl⟩ := Query.run_sessions hr
      exact .keep _
    | users q =>
      obtain ⟨t, -, rfl⟩ := Query.run_users hr
      exact .keep _
    | enqueue k email =>
      obtain ⟨t, -, rfl⟩ := Query.run_enqueue hr
      exact .keep _
    | commit =>
      obtain rfl := Query.run_commit hr
      exact .commit _
    | rollback =>
      obtain rfl := Query.run_rollback hr
      exact .rollback _
  have hrow : ∀ k c, db.credentials.row i k = some c → c.Tallied := fun k c hc => h.tallied.row hc
  have hord := heff.ordered (LockLe.refl _) (fun _ _ _ => LockLe.trans) h.ordered
    fun k c hA => (hA (hrow k)).2
  refine ⟨⟨heff.holds h.tallied fun k c hA => (hA (hrow k)).1, ?_⟩, heff.moves, ?_, hclock⟩
  · rw [hclock]
    exact hord.1
  · rw [hclock]
    exact hord.2

/-- **The contract** of the lockout. -/
def lockContract (env : Env) : Contract (authService env) clearsElapsed where
  inv := LockInv
  guar := LockStep
  inv_tick := fun n h => h.tick n
  rollback := by
    intro i db db' h hC hr
    have hq : (Query.rollback).Timely i db := trivial
    have hr' : Query.run env .rollback i db = some ((), db') := hr
    exact h.run hq hC hr'

/-- The queries that clear no lock. -/
def Query.clears : Query β → Bool
  | .credentials _ (.clearFailures _ _ _) => true
  | _ => false

theorem Query.timely_of_clears {q : Query β} (hq : q.clears = false) : q.Timely i db := by
  cases q with
  | credentials m q =>
    cases q with
    | clearFailures => cases hq
    | _ => trivial
  | _ => trivial

theorem lock_sound {q : Query β} (hq : q.clears = false) : (lockContract env).Sound q := by
  intro i db b db' h hC hr
  rw [authService_run] at hr
  exact h.run (Query.timely_of_clears hq) hC hr

end Marketplace
