import Marketplace.Auth.Footprint

/-!
# Spending a token

Each guess at a code and each use of a link is one statement, which counts it on the row
and spends the row if it has to. The record of those statements
(`Marketplace.Db.spent`) survives rollbacks, and the row does not: so the row *accounts*
for the record (`Marketplace.Accounts`) as long as no transaction that made a guess or
used a link is rolled back, which is the proviso of this file
(`Marketplace.spendsKept`).

What a record that is accounted for looks like is `Marketplace.Orderly`: every guess and
every use found the token unspent, and with attempts left.
-/

namespace Marketplace

open ReadCommitted

/-! ### The record -/

namespace Spend

/-- The request behind the statement. -/
def who : Spend → ℕ
  | guess i _ _ _ => i
  | link i _ => i

/-- The token it was about. -/
def key : Spend → Uuid
  | guess _ k _ _ => k
  | link _ k => k

/-- A guess that was compared with the stored digest. -/
def compared : Spend → Bool
  | guess _ _ .gone _ => false
  | guess _ _ _ _ => true
  | link _ _ => false

/-- The token was spent: the code matched, or the link was used. -/
def wins : Spend → Bool
  | guess _ _ (.matched _ _) _ => true
  | guess _ _ _ _ => false
  | link _ _ => true

/-- The statement found the token, and left its mark on it. -/
def touches (k : Uuid) (e : Spend) : Bool := decide (e.key = k) && (e.compared || e.wins)

/-- A match came before this instant. -/
def Before (limit : Instant) : Spend → Prop
  | guess _ _ (.matched _ _) now => now < limit
  | _ => True

end Spend

/-- The statements that found token `k`, newest first. -/
def spendsOn (k : Uuid) (es : List Spend) : List Spend := es.filter (Spend.touches k)

theorem spendsOn_append (k : Uuid) (es fs : List Spend) :
    spendsOn k (es ++ fs) = spendsOn k es ++ spendsOn k fs :=
  List.filter_append es fs

/-- A guess that found no token leaves no mark. -/
theorem spendsOn_gone (i : ℕ) (k l : Uuid) (now : Instant) :
    spendsOn l [.guess i k .gone now] = [] :=
  List.filter_cons_of_neg (by simp [Spend.touches, Spend.compared, Spend.wins])

/-- The token has not been spent, and has attempts left. -/
def Spendable (es : List Spend) : Prop :=
  es.countP Spend.wins = 0 ∧ es.countP Spend.compared < maxCodeAttempts

/-- **Every statement found the token spendable.** -/
def Orderly : List Spend → Prop
  | [] => True
  | _ :: es => Spendable es ∧ Orderly es

theorem Orderly.compared_le {es : List Spend} (h : Orderly es) :
    es.countP Spend.compared ≤ maxCodeAttempts := by
  cases es with
  | nil => exact Nat.zero_le _
  | cons e es =>
    have hlt := h.1.2
    rw [List.countP_cons]
    split <;> omega

theorem Orderly.wins_le {es : List Spend} (h : Orderly es) : es.countP Spend.wins ≤ 1 := by
  cases es with
  | nil => exact Nat.zero_le _
  | cons e es =>
    have hzero := h.1.1
    rw [List.countP_cons]
    split <;> omega

theorem Orderly.of_suffix {es fs : List Spend} (h : Orderly fs) (hs : es <:+ fs) : Orderly es := by
  obtain ⟨gs, rfl⟩ := hs
  induction gs with
  | nil => exact h
  | cons g gs ih => exact ih h.2

/-! ### Rows that account for it -/

/-- **The version accounts for these statements.** -/
structure Accounts (o : Option AuthToken) (es : List Spend) : Prop where
  /-- Every statement found the token spendable. -/
  orderly : Orderly es
  /-- A token that is not there was not found. -/
  absent : o = none → es = []
  /-- Its attempts are the guesses. -/
  count : ∀ t, o = some t → t.attempts = es.countP Spend.compared
  /-- An open token is spendable. -/
  spendable : ∀ t, o = some t → t.consumedAt = none → Spendable es
  /-- No match came too late. -/
  before : ∀ t, o = some t → ∀ e ∈ es, e.Before t.expiresAt

theorem Accounts.missing : Accounts none [] :=
  ⟨trivial, fun _ => rfl, nofun, nofun, nofun⟩

/-- A new token accounts for nothing. -/
theorem Accounts.inserted {t : AuthToken} (h : t.attempts = 0) : Accounts (some t) [] := by
  refine ⟨trivial, fun _ => rfl, fun t' ht' => ?_, fun t' _ _ => ⟨rfl, by decide⟩, fun _ _ _ => nofun⟩
  obtain rfl := Option.some.inj ht'
  exact h

/-- A token accounts for what it did once it is consumed, too. -/
theorem Accounts.consumed {t : AuthToken} {es : List Spend} (h : Accounts (some t) es)
    (now : Instant) : Accounts (some { t with consumedAt := some now }) es := by
  refine ⟨h.orderly, nofun, fun t' ht' => ?_, fun t' ht' hopen => ?_, fun t' ht' => ?_⟩
  · obtain rfl := Option.some.inj ht'
    exact h.count t rfl
  · obtain rfl := Option.some.inj ht'
    cases hopen
  · obtain rfl := Option.some.inj ht'
    exact h.before t rfl

/-- A link that is used is accounted for. -/
theorem Accounts.link {t : AuthToken} {es : List Spend} (h : Accounts (some t) es)
    (hopen : t.consumedAt = none) (i : ℕ) (k : Uuid) (now : Instant) :
    Accounts (some { t with consumedAt := some now }) (.link i k :: es) := by
  refine ⟨⟨h.spendable t rfl hopen, h.orderly⟩, nofun, fun t' ht' => ?_, fun t' ht' hopen' => ?_,
    fun t' ht' e he => ?_⟩
  · obtain rfl := Option.some.inj ht'
    rw [List.countP_cons_of_neg (by simp [Spend.compared])]
    exact h.count t rfl
  · obtain rfl := Option.some.inj ht'
    cases hopen'
  · obtain rfl := Option.some.inj ht'
    rcases List.mem_cons.mp he with rfl | he
    · trivial
    · exact h.before t rfl e he

/-- A guess is accounted for. -/
theorem Accounts.guess {t : AuthToken} {es : List Spend} (h : Accounts (some t) es)
    (hopen : t.consumedAt = none) (i : ℕ) (k : Uuid) (codeHash : Digest) {now : Instant}
    (hlive : now < t.expiresAt) :
    Accounts
      (some { t with
        attempts := t.attempts + 1
        consumedAt := if t.tokenHash = codeHash ∨ t.attempts + 1 ≥ maxCodeAttempts then some now
          else none })
      (.guess i k (if t.tokenHash = codeHash then .matched t.userId t.authorisedBy else .wrong) now
        :: es) := by
  have hspend := h.spendable t rfl hopen
  have hcount := h.count t rfl
  have hcompared : ∀ o, o ≠ CodeOutcome.gone → (Spend.guess i k o now).compared = true := by
    intro o ho
    cases o with
    | gone => exact absurd rfl ho
    | _ => rfl
  refine ⟨⟨hspend, h.orderly⟩, nofun, fun t' ht' => ?_, fun t' ht' hopen' => ?_, fun t' ht' e he => ?_⟩
  · obtain rfl := Option.some.inj ht'
    rw [List.countP_cons_of_pos (hcompared _ (by split <;> simp))]
    exact congrArg (· + 1) hcount
  · obtain rfl := Option.some.inj ht'
    -- it is still open, so the guess was wrong, and not the last one
    dsimp only at hopen'
    split at hopen'
    · cases hopen'
    · rename_i hnot
      rw [not_or] at hnot
      rw [if_neg hnot.1]
      constructor
      · rw [List.countP_cons_of_neg (by simp [Spend.wins])]
        exact hspend.1
      · rw [List.countP_cons_of_pos rfl]
        omega
  · obtain rfl := Option.some.inj ht'
    rcases List.mem_cons.mp he with rfl | he
    · by_cases hmatch : t.tokenHash = codeHash
      · rw [if_pos hmatch]
        exact hlive
      · rw [if_neg hmatch]
        trivial
    · exact h.before t rfl e he

/-! ### Statements -/

variable {i : ℕ} {β : Type}

/-- The statements as the service issues them: with its bound on the guesses, and with
tokens nobody has guessed at yet. -/
def AuthTokens.Query.regular : AuthTokens.Query β → Bool
  | .verifyCode _ _ _ maxAttempts _ => decide (maxAttempts = maxCodeAttempts)
  | .insert _ token => decide (token.attempts = 0)
  | _ => true

/-- What a statement adds to the record is about its own row. -/
theorem spendsOn_of_ne {q : AuthTokens.Query β} {b : β} {k : Uuid} (hne : k ≠ q.key) :
    spendsOn k (q.spends i b) = [] := by
  have htouch : ∀ e : Spend, e.key = q.key → ¬ e.touches k = true := by
    intro e he ht
    rw [Spend.touches, Bool.and_eq_true, decide_eq_true_eq] at ht
    exact hne (ht.1.symm.trans he)
  cases q with
  | consumeOpen => rfl
  | insert => rfl
  | verifyCode c purpose hash n now => exact List.filter_cons_of_neg (htouch _ rfl)
  | consumeLink c hash purpose now =>
    rcases b with _ | u
    · rfl
    · exact List.filter_cons_of_neg (htouch _ rfl)

/-- **A statement keeps its row's account**, with what it adds to the record. -/
theorem Accounts.act {q : AuthTokens.Query β} (hq : q.regular = true) {o : Option AuthToken}
    {es : List Spend} (h : Accounts o es) :
    Accounts (((q.act o).2).or o) (spendsOn q.key (q.spends i (q.act o).1) ++ es) := by
  cases q with
  | consumeOpen k userId purpose now =>
    rcases o with _ | t
    · exact h
    · show Accounts ((Table.updating _ (some t)).2.or (some t)) es
      simp only [Table.updating]
      by_cases hopen : t.userId = userId ∧ t.purpose = purpose ∧ t.consumedAt = none
      · rw [if_pos hopen]
        exact h.consumed now
      · rw [if_neg hopen]
        exact h
  | insert k token =>
    have hfresh : token.attempts = 0 := of_decide_eq_true hq
    rcases o with _ | t
    · obtain rfl := h.absent rfl
      exact Accounts.inserted hfresh
    · exact h
  | verifyCode k purpose hash n now =>
    obtain rfl : n = maxCodeAttempts := of_decide_eq_true hq
    rcases o with _ | t
    · show Accounts none (spendsOn k [.guess i k .gone now] ++ es)
      rw [spendsOn_gone]
      exact h
    · simp only [AuthTokens.Query.act, AuthTokens.Query.spends, AuthTokens.Query.key]
      by_cases hlive : t.purpose = purpose ∧ t.consumedAt = none ∧ now < t.expiresAt
      · rw [if_pos hlive]
        have htouch : ∀ o, o ≠ CodeOutcome.gone → spendsOn k [.guess i k o now] =
            [.guess i k o now] := by
          intro o ho
          cases o <;> simp_all [spendsOn, Spend.touches, Spend.key, Spend.compared, Spend.wins]
        dsimp only
        rw [htouch _ (by split <;> simp)]
        exact h.guess hlive.2.1 i k hash hlive.2.2
      · rw [if_neg hlive, spendsOn_gone]
        exact h
  | consumeLink k hash purpose now =>
    rcases o with _ | t
    · exact h
    · simp only [AuthTokens.Query.act, Table.updating, AuthTokens.Query.key]
      by_cases hlive : t.tokenHash = hash ∧ t.purpose = purpose ∧ t.consumedAt = none ∧
        now < t.expiresAt
      · rw [if_pos hlive]
        have htouch : spendsOn k [Spend.link i k] = [.link i k] := by
          simp [spendsOn, Spend.touches, Spend.key, Spend.wins]
        dsimp only [AuthTokens.Query.spends]
        rw [htouch]
        exact h.link hlive.2.2.1 i k now
      · rw [if_neg hlive]
        exact h

end Marketplace
