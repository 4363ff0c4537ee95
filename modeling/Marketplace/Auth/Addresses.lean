import Marketplace.Auth.Footprint

/-!
# Which address a code proves

An address is not stored with the code that was sent to it: it is digested with the
code, and confirming has to supply both again. What the digest is taken of is the
challenge, the code and the address in lower case, joined by colons. The challenge has no
colon and neither has the code that was mailed; the code that comes back may have one, and
then the text can be cut at another place (`Marketplace.emailVerifyPreimage_eq_iff`).

The rest of the file follows an address through the tables: every published token of a
confirmation comes with the message that was queued for it (`Marketplace.Mailed`), neither
changes what it says, and an account that is verified was so by the request its row names.
-/

namespace Marketplace

open ReadCommitted

/-! ### Texts joined by a separator -/

section Joined

variable {γ : Type} {sep : γ} {xs ys us vs : List γ}

/-- **Two ways to cut a joined text**: at the same place, or one further on. -/
theorem joined_eq_iff : xs ++ sep :: ys = us ++ sep :: vs ↔
    us = xs ∧ vs = ys ∨ (∃ p, us = xs ++ sep :: p ∧ ys = p ++ sep :: vs) ∨
      ∃ p, xs = us ++ sep :: p ∧ vs = p ++ sep :: ys := by
  constructor
  · intro heq
    rcases List.append_eq_append_iff.mp heq with ⟨as, rfl, has⟩ | ⟨cs, rfl, hcs⟩
    · rcases as with _ | ⟨a, p⟩
      · exact Or.inl ⟨List.append_nil _, (List.cons.inj has).2.symm⟩
      · obtain ⟨rfl, hys⟩ := List.cons.inj has
        exact Or.inr (Or.inl ⟨p, rfl, hys⟩)
    · rcases cs with _ | ⟨c, p⟩
      · exact Or.inl ⟨(List.append_nil _).symm, (List.cons.inj hcs).2⟩
      · obtain ⟨rfl, hvs⟩ := List.cons.inj hcs
        exact Or.inr (Or.inr ⟨p, rfl, hvs⟩)
  · rintro (⟨rfl, rfl⟩ | ⟨p, rfl, rfl⟩ | ⟨p, rfl, rfl⟩)
    · rfl
    · rw [List.append_assoc, List.cons_append]
    · rw [List.append_assoc, List.cons_append]

/-- A part without the separator is not cut. -/
theorem not_cut (h : sep ∉ xs) : ¬ ∃ p, xs = us ++ sep :: p ∧ vs = p ++ sep :: ys := by
  rintro ⟨p, rfl, -⟩
  exact h (List.mem_append_right _ List.mem_cons_self)

/-- Neither of the first parts has a separator. -/
theorem joined_inj (h : sep ∉ xs) (h' : sep ∉ us) :
    xs ++ sep :: ys = us ++ sep :: vs ↔ us = xs ∧ vs = ys := by
  rw [joined_eq_iff, or_iff_left (not_cut h), or_iff_left (not_cut h')]

end Joined

/-! ### What is digested -/

/-- What is relied on about the surroundings: digests of different values differ,
identifiers have different texts, without a colon, and letter case within ASCII does not
show in lower case. -/
structure Env.Separates (env : Env) : Prop where
  /-- The keyed digest tells values apart. -/
  peppered : ∀ domain v w, env.peppered domain v = env.peppered domain w → v = w
  /-- Identifiers are told apart. -/
  formatUuid : ∀ k l, env.formatUuid k = env.formatUuid l → k = l
  /-- An identifier has no colon. -/
  colon : ∀ k, ':' ∉ env.formatUuid k
  /-- Lower case forgets letter case. -/
  lower : ∀ s t, eqIgnoreAsciiCase s t = true → env.toLowercase s = env.toLowercase t

/-- **The text can be cut elsewhere**: the second code is the first one and the beginning
of the first address, and the second address is the rest. -/
def CutLater (env : Env) (code address code' address' : Text) : Prop :=
  ∃ p, code' = code ++ ':' :: p ∧ env.toLowercase address = p ++ ':' :: env.toLowercase address'

/-- An address that is cut is not the address. -/
theorem CutLater.ne {env : Env} {code address code' address' : Text}
    (h : CutLater env code address code' address') :
    env.toLowercase address ≠ env.toLowercase address' := by
  obtain ⟨p, -, hcut⟩ := h
  intro heq
  have hlen := congrArg List.length (hcut.symm.trans heq)
  simp only [List.length_append, List.length_cons] at hlen
  omega

theorem digit_ne_colon (n : ℕ) : ':' ≠ digit n := by
  have hall : ∀ m < 10, ':' ≠ Char.ofNat (48 + m) := by decide
  exact hall (n % 10) (Nat.mod_lt n (by decide))

/-- A code that is mailed has no colon. -/
theorem colon_not_mem_generateCode (env : Env) (i : ℕ) : ':' ∉ generateCode env i := by
  simp [generateCode, sixDigits, digit_ne_colon]

/-- **What is digested of two confirmations is the same** when the confirmations are, or
when one is the other cut at another colon. -/
theorem emailVerifyPreimage_eq_iff {env : Env} (henv : env.Separates) {k k' : Uuid}
    {code address code' address' : Text} :
    emailVerifyPreimage env k code address = emailVerifyPreimage env k' code' address' ↔
      k' = k ∧ (code' = code ∧ env.toLowercase address' = env.toLowercase address ∨
        CutLater env code address code' address' ∨ CutLater env code' address' code address) := by
  rw [emailVerifyPreimage, emailVerifyPreimage, joined_inj (henv.colon k) (henv.colon k')]
  exact and_congr ⟨henv.formatUuid _ _, congrArg _⟩ (eq_comm.trans joined_eq_iff)

/-! ### What rows keep -/

/-- A later version of an account differs only if it is verified. -/
def UserLater (o o' : Option User) : Prop :=
  ∀ u, o = some u → ∃ u', o' = some u' ∧ (u'.emailVerifiedAt = none → u' = u)

theorem UserLater.refl (o : Option User) : UserLater o o := fun u hu => ⟨u, hu, fun _ => rfl⟩

theorem UserLater.trans (o₁ o₂ o₃ : Option User) (h : UserLater o₁ o₂) (h' : UserLater o₂ o₃) :
    UserLater o₁ o₃ := by
  intro u hu
  obtain ⟨u₂, hu₂, hkept⟩ := h u hu
  obtain ⟨u₃, hu₃, hkept'⟩ := h' u₂ hu₂
  refine ⟨u₃, hu₃, fun hnone => ?_⟩
  obtain rfl := hkept' hnone
  exact hkept hnone

theorem UserLater.act {i : ℕ} {o : Option User} {u : User} (h : Users.Act i o u) :
    UserLater o (some u) := by
  rintro u₀ rfl
  cases h <;> exact ⟨_, rfl, nofun⟩

/-- A message that was queued stays as it is. -/
def MailLater (o o' : Option Email) : Prop := ∀ e, o = some e → o' = some e

theorem MailLater.trans (o₁ o₂ o₃ : Option Email) (h : MailLater o₁ o₂) (h' : MailLater o₂ o₃) :
    MailLater o₁ o₃ :=
  fun e he => h' e (h e he)

/-! ### The invariant -/

/-- **The token is for this code and this address**, and the message that says so is queued. -/
def Mailed (env : Env) (k : Uuid) (t : AuthToken) (code address : Text) (mail : Option Email) :
    Prop :=
  ':' ∉ code ∧ t.tokenHash = emailVerifyHash env k code address ∧
    mail = some ⟨t.userId, address, .emailVerify code⟩

theorem Mailed.later {env : Env} {k : Uuid} {t t' : AuthToken} {code address : Text}
    {mail mail' : Option Email} (h : Mailed env k t code address mail)
    (ht : AuthTokens.Kept t t') (hmail : MailLater mail mail') :
    Mailed env k t' code address mail' := by
  obtain ⟨hcolon, hhash, hsent⟩ := h
  exact ⟨hcolon, ht.tokenHash.trans hhash, by rw [hmail _ hsent, ht.userId]⟩

variable {env : Env} {i j : ℕ} {db db' : Db} {α β : Type}

/-- **The invariant**: the published token of a confirmation comes with its message, and
rows keep what they have to. -/
structure AddressInv (env : Env) (db : Db) : Prop where
  /-- Every token of a confirmation comes with its message. -/
  mailed : ∀ k t, (db.tokens.slot k).committed = some t → t.purpose = .emailVerify →
    ∃ code address, Mailed env k t code address (db.outbox.slot k).committed
  /-- Tokens keep what they are for. -/
  tokens : db.tokens.Ordered AuthTokens.Later
  /-- Messages stay as they are. -/
  outbox : db.outbox.Ordered MailLater
  /-- Accounts stay as they are until they are verified. -/
  users : db.users.Ordered UserLater

/-- What a query does. -/
structure AddressStep (i : ℕ) (db db' : Db) : Prop where
  /-- Tokens held by others do not move. -/
  tokens : db.tokens.Moves i db'.tokens
  /-- Neither do messages. -/
  outbox : db.outbox.Moves i db'.outbox
  /-- Neither do accounts. -/
  users : db.users.Moves i db'.users
  /-- Tokens keep what they are for. -/
  tokensGrown : db.tokens.Grown AuthTokens.Later db'.tokens
  /-- Messages stay as they are. -/
  outboxGrown : db.outbox.Grown MailLater db'.outbox
  /-- Accounts stay as they are until they are verified. -/
  usersGrown : db.users.Grown UserLater db'.users
  /-- Nobody proves an address in somebody else's name. -/
  proved : ∀ l u, (db'.users.slot l).Version u → u.provedBy ≠ some i →
    (db.users.slot l).Version u

/-- What every query does, to everything but the messages that tokens come with. -/
theorem AddressInv.step {q : Query β} {b : β} (h : AddressInv env db)
    (hr : Query.run env q i db = some (b, db')) :
    (db'.tokens.Ordered AuthTokens.Later ∧ db'.outbox.Ordered MailLater ∧
      db'.users.Ordered UserLater) ∧ AddressStep i db db' := by
  have heff := Query.effects hr
  have htokens := heff.tokens.ordered AuthTokens.Later.refl AuthTokens.Later.trans h.tokens
    fun k r hA => AuthTokens.Later.act hA
  have houtbox := heff.outbox.ordered (fun _ _ he => he) MailLater.trans h.outbox
    fun k r hA e he => by rw [hA] at he; cases he
  have husers := heff.users.ordered UserLater.refl UserLater.trans h.users
    fun k r hA => UserLater.act hA
  have hver : db'.users.Holds fun l u => u.provedBy ≠ some i → (db.users.slot l).Version u :=
    heff.users.holds (fun l u hu _ => hu) fun k r hA hne => absurd hA.provedBy hne
  exact ⟨⟨htokens.1, houtbox.1, husers.1⟩, heff.tokens.moves, heff.outbox.moves, heff.users.moves,
    htokens.2, houtbox.2, husers.2, hver⟩

/-- A token that is published later comes with its message, if one that is new does. -/
theorem AddressInv.of_step {q : Query β} {b : β} (h : AddressInv env db)
    (hr : Query.run env q i db = some (b, db'))
    (hnew : ∀ k t, (db'.tokens.slot k).committed = some t → t.purpose = .emailVerify →
      (db.tokens.slot k).committed = none →
      ∃ code address, Mailed env k t code address (db'.outbox.slot k).committed) :
    AddressInv env db' ∧ AddressStep i db db' := by
  obtain ⟨⟨htokens, houtbox, husers⟩, hg⟩ := h.step hr
  refine ⟨⟨fun k t ht hpurpose => ?_, htokens, houtbox, husers⟩, hg⟩
  rcases hold : (db.tokens.slot k).committed with _ | t₀
  · exact hnew k t ht hpurpose hold
  · obtain ⟨t', ht', hkept⟩ := hg.tokensGrown k t₀ hold
    obtain rfl : t = t' := Option.some.inj (ht.symm.trans ht')
    obtain ⟨code, address, hmailed⟩ := h.mailed k t₀ hold (hkept.purpose ▸ hpurpose)
    exact ⟨code, address, hmailed.later hkept (hg.outboxGrown k)⟩

/-- The queries that publish no token that is new. -/
def Query.publishes : Query β → Bool
  | .tokens .auto (.insert _ _) => true
  | .commit => true
  | _ => false

/-- A token is published by an insert that is not part of a transaction, or by a commit. -/
theorem Query.committed_tokens {q : Query β} {b : β} (hq : q.publishes = false)
    (hr : Query.run env q i db = some (b, db')) {k : Uuid} {t : AuthToken}
    (ht : (db'.tokens.slot k).committed = some t) : (db.tokens.slot k).committed ≠ none := by
  intro hnone
  cases q with
  | tokens m q =>
    obtain ⟨t', hmod, rfl⟩ := Query.run_tokens hr
    cases m with
    | tx =>
      rw [Table.committed_modify hmod, hnone] at ht
      cases ht
    | auto =>
      by_cases hk : k = q.key
      · subst hk
        have hrow : db.tokens.row i q.key = none :=
          (Slot.visible_of_unlocked (Table.unlocked_of_auto hmod)).trans hnone
        obtain ⟨-, -, ⟨-, rfl⟩ | ⟨r, hput, -⟩⟩ := Table.modify_cases hmod
        · rw [hnone] at ht
          cases ht
        · rw [hrow] at hput
          cases q with
          | insert => cases hq
          | _ => cases hput
      · rw [Table.slot_modify_of_ne hmod hk, hnone] at ht
        cases ht
  | commit => cases hq
  | rollback =>
    obtain rfl := Query.run_rollback hr
    have hsame : ((db.tokens.slot k).rollback i).committed = some t := ht
    rw [Slot.rollback_committed, hnone] at hsame
    cases hsame
  | credentials m q =>
    obtain ⟨t', -, rfl⟩ := Query.run_credentials hr
    exact nomatch hnone.symm.trans ht
  | sessions q =>
    obtain ⟨t', -, rfl⟩ := Query.run_sessions hr
    exact nomatch hnone.symm.trans ht
  | users q =>
    obtain ⟨t', -, rfl⟩ := Query.run_users hr
    exact nomatch hnone.symm.trans ht
  | enqueue k email =>
    obtain ⟨t', -, rfl⟩ := Query.run_enqueue hr
    exact nomatch hnone.symm.trans ht

theorem AddressInv.run {q : Query β} {b : β} (h : AddressInv env db) (hq : q.publishes = false)
    (hr : Query.run env q i db = some (b, db')) : AddressInv env db' ∧ AddressStep i db db' :=
  h.of_step hr fun _ _ ht _ hnone => absurd hnone (Query.committed_tokens hq hr ht)

/-- **The contract** of the confirmations. -/
def addressContract (env : Env) : Contract (authService env) anyQuery where
  inv := AddressInv env
  guar := AddressStep
  inv_tick := fun _ h => ⟨h.mailed, h.tokens, h.outbox, h.users⟩
  rollback := by
    intro i db db' h _ hr
    have hq : (Query.rollback).publishes = false := rfl
    have hr' : Query.run env .rollback i db = some ((), db') := hr
    exact h.run hq hr'

theorem address_sound {q : Query β} (hq : q.publishes = false) :
    (addressContract env).Sound q := by
  intro i db b db' h _ hr
  rw [authService_run] at hr
  exact h.run hq hr

/-! ### Tokens that are not published yet -/

/-- **A token that the request is about to publish** comes with a message that it is about to
publish. -/
def posted (env : Env) (i : ℕ) : Assertion (addressContract env) i where
  holds db := ∀ k t, (db.tokens.slot k).lock = some (i, some t) →
    (db.tokens.slot k).committed = none → t.purpose = .emailVerify →
    ∃ code address mail, (db.outbox.slot k).lock = some (i, mail) ∧
      Mailed env k t code address mail
  stable := by
    intro j db db' hne _ _ hg h k t hk hnone hpurpose
    have hk' := (hg.tokens k).lock_of_other hk (Ne.symm hne)
    have hsame := (hg.tokens k).eq_of_held hk' (Ne.symm hne)
    rw [hsame] at hnone
    obtain ⟨code, address, mail, hmail, hmailed⟩ := h k t hk' hnone hpurpose
    refine ⟨code, address, mail, ?_, hmailed⟩
    rw [(hg.outbox k).eq_of_held hmail (Ne.symm hne), hmail]
  tick := fun _ _ h => h

/-- A commit publishes messages with their tokens. -/
theorem address_commit {u : Unit} (hs : AddressInv env db) (h : (posted env i).holds db)
    (hr : Query.run env .commit i db = some (u, db')) :
    AddressInv env db' ∧ AddressStep i db db' := by
  refine hs.of_step hr fun k t ht hpurpose hnone => ?_
  obtain rfl := Query.run_commit hr
  have hvis : (db.tokens.slot k).visible i = some t := by
    rw [← Slot.commit_committed]
    exact ht
  have hlock : (db.tokens.slot k).lock = some (i, some t) := by
    rcases Slot.visible_cases i (db.tokens.slot k) with hi | hc
    · rw [hi, hvis]
    · rw [hc, hnone] at hvis
      cases hvis
  obtain ⟨code, address, mail, hmail, hmailed⟩ := h k t hlock hnone hpurpose
  refine ⟨code, address, ?_⟩
  have hpub : ((db.outbox.slot k).commit i).committed = mail := by rw [Slot.commit_of_held hmail]
  exact hpub ▸ hmailed

/-- The queries that insert the token of a confirmation. -/
def Query.confirms : Query β → Bool
  | .tokens _ (.insert _ token) => decide (token.purpose = .emailVerify)
  | _ => false

/-- What a statement puts over a token of a confirmation that nobody has published was put
over one that the request had written. -/
theorem act_of_confirmation {q : AuthTokens.Query β} {m : Mode}
    (hq : (Query.tokens m q).confirms = false) {o : Option AuthToken} {t : AuthToken}
    (hput : (q.act o).2 = some t) (hpurpose : t.purpose = .emailVerify) :
    ∃ t₀, o = some t₀ ∧ AuthTokens.Kept t₀ t := by
  rcases o with _ | t₀
  · cases q with
    | insert k token =>
      obtain rfl : token = t := Option.some.inj hput
      exact absurd hpurpose (of_decide_eq_false hq)
    | _ => cases hput
  · obtain ⟨t', ht', hkept⟩ := AuthTokens.Later.act (AuthTokens.act_of_query hput) t₀ rfl
    obtain rfl := Option.some.inj ht'
    exact ⟨t₀, rfl, hkept⟩

/-- **What a request is about to publish** is not disturbed by its other queries. -/
theorem keeps_posted {q : Query β} (hq : q.publishes = false) (hq' : q.confirms = false) :
    (addressContract env).Keeps (posted env i) q := by
  intro db b db' hs h hC hr
  obtain ⟨hs', hg⟩ := address_sound hq i db b db' hs hC hr
  refine ⟨hs', hg, fun k t hk hnone hpurpose => ?_⟩
  have hr' : Query.run env q i db = some (b, db') := hr
  have hold : (db.tokens.slot k).committed = none := by
    rcases hc : (db.tokens.slot k).committed with _ | t₀
    · rfl
    · obtain ⟨t', ht', -⟩ := hg.tokensGrown k t₀ hc
      rw [hnone] at ht'
      cases ht'
  cases q with
  | tokens m q =>
    obtain ⟨t', hmod, rfl⟩ := Query.run_tokens hr'
    rcases Table.lock_modify hmod hk with hk | ⟨rfl, r, hput, hr⟩
    · exact h k t hk hold hpurpose
    · obtain rfl := Option.some.inj hr
      obtain ⟨t₀, hrow, hkept⟩ := act_of_confirmation hq' hput hpurpose
      have hlock : (db.tokens.slot q.key).lock = some (i, some t₀) := by
        rcases Slot.visible_cases i (db.tokens.slot q.key) with hi | hc
        · exact hi.trans (congrArg (fun v => some (i, v)) hrow)
        · exact nomatch hold.symm.trans (hc.symm.trans hrow)
      obtain ⟨code, address, mail, hmail, hmailed⟩ :=
        h q.key t₀ hlock hold (hkept.purpose ▸ hpurpose)
      exact ⟨code, address, mail, hmail, hmailed.later hkept fun _ he => he⟩
  | enqueue l email =>
    obtain ⟨t', hmod, rfl⟩ := Query.run_enqueue hr'
    obtain ⟨code, address, mail, hmail, hmailed⟩ := h k t hk hold hpurpose
    refine ⟨code, address, mail, ?_, hmailed⟩
    by_cases hkl : k = l
    · -- there is a message under this identifier already
      subst hkl
      have hrow : db.outbox.row i k = mail := Slot.visible_of_held hmail
      obtain ⟨-, -, ⟨-, rfl⟩ | ⟨r, hput, -⟩⟩ := Table.modify_cases hmod
      · exact hmail
      · rw [hrow, hmailed.2.2] at hput
        cases hput
    · show (t'.slot k).lock = _
      rw [Table.slot_modify_of_ne hmod hkl, hmail]
  | rollback =>
    obtain rfl := Query.run_rollback hr'
    exact absurd rfl (Slot.lock_of_rollback hk).1
  | commit => cases hq
  | credentials m q =>
    obtain ⟨t', -, rfl⟩ := Query.run_credentials hr'
    exact h k t hk hold hpurpose
  | sessions q =>
    obtain ⟨t', -, rfl⟩ := Query.run_sessions hr'
    exact h k t hk hold hpurpose
  | users q =>
    obtain ⟨t', -, rfl⟩ := Query.run_users hr'
    exact h k t hk hold hpurpose

/-- A commit publishes everything that the request was about to. -/
theorem keeps_posted_commit : (addressContract env).Keeps (posted env i) Query.commit := by
  intro db u db' hs h _ hr
  have hr' : Query.run env .commit i db = some (u, db') := hr
  obtain ⟨hs', hg⟩ := address_commit hs h hr'
  obtain rfl := Query.run_commit hr'
  exact ⟨hs', hg, fun k t hk _ _ => absurd rfl (Slot.lock_of_commit hk).1⟩

end Marketplace
