import Marketplace.Search.Input

/-!
# The remembered-device cookie, as it is presented

The cookie is a text of three parts between dots, `user_id.expires_unix.signature`, and
whoever presents it may have written it. An identifier and a number have several spellings
that are read alike, and the signature is over the one spelling that the server writes.

All digests of one pepper come from one function, and what is digested of a cookie has one null
character, where the name of its purpose ends, so that it is digested for no other purpose:
`Marketplace.Cookie.peppered_inj`. With it, `Marketplace.Cookie.device_cookie` says that an
accepted cookie carries a signature that was made for its account and for a time that has not
come. A cookie states whole seconds, so it is forgotten within the second before its expiry:
`Marketplace.Cookie.deviceRemembers_lastSecond`.
-/

namespace Marketplace.Cookie

open Search

/-! ### Digests -/

/-- **What the cookie rests on**: the keyed digest, and how its parts are written and read. -/
structure Surroundings where
  /-- HMAC-SHA256 of a message, under a key. -/
  mac : Text → Text → Digest
  /-- `Uuid::to_string`. -/
  formatUuid : Uuid → Text
  /-- `Uuid::from_str`. -/
  parseUuid : Text → Option Uuid
  /-- URL-safe base64 without padding. -/
  encode64 : Digest → Text
  /-- The bytes that a URL-safe base64 stands for, if it stands for some. -/
  decode64 : Text → Option Digest

/-- `Display` of a whole number. -/
def showInt (n : ℤ) : Text :=
  if n < 0 then '-' :: Nat.toDigits 10 n.natAbs else Nat.toDigits 10 n.natAbs

/-- A point in time, in nanoseconds, between the first and the last that a `DateTime<Utc>` can
be. -/
structure Moment where
  nanos : ℤ
  in_range : -8334601228800 * 10 ^ 9 ≤ nanos ∧ nanos < 8210266876800 * 10 ^ 9
  deriving DecidableEq

/-- `DateTime::timestamp`: the whole seconds. -/
def Moment.timestamp (t : Moment) : ℤ := t.nanos / 10 ^ 9

variable (env : Surroundings) (pepper : Text)

/-- **`peppered`**: a keyed digest of a value for a purpose. -/
def peppered (domain value : Text) : Digest := env.mac pepper (domain ++ '\x00' :: value)

/-- What is digested of a device cookie. -/
def devicePreimage (userId : Uuid) (expires : ℤ) : Text :=
  env.formatUuid userId ++ ':' :: showInt expires

/-- `device_signature`. -/
def deviceSignature (userId : Uuid) (expires : ℤ) : Digest :=
  peppered env pepper "device".toList (devicePreimage env userId expires)

/-- `user_id.expires_unix.signature`, for a count of seconds. -/
def signedValue (userId : Uuid) (expires : ℤ) : Text :=
  env.formatUuid userId ++ '.' :: (showInt expires ++
    '.' :: env.encode64 (deviceSignature env pepper userId expires))

/-- **`device_value`**: the cookie that is issued. -/
def deviceValue (userId : Uuid) (expiresAt : Moment) : Text :=
  signedValue env pepper userId expiresAt.timestamp

/-- The three parts of a presented cookie, `splitn(3, '.')`. -/
def parts (presented : Text) : Option (Text × Text × Text) :=
  match splitOnce '.' presented with
  | none => none
  | some (user, rest) => (splitOnce '.' rest).map fun p => (user, p.1, p.2)

/-- **`device_remembers`**: whether a presented cookie remembers an account, now. -/
def deviceRemembers (presented : Text) (userId : Uuid) (now : Moment) : Bool :=
  match parts presented with
  | none => false
  | some (user, expiry, signature) =>
    match env.parseUuid user, parseI64 expiry, env.decode64 signature with
    | some claimedUser, some expires, some claimedSignature =>
      if claimedUser ≠ userId ∨ expires ≤ now.timestamp then false
      else deviceSignature env pepper userId expires = claimedSignature
    | _, _, _ => false

/-- The text of the signature that a cookie carries. -/
def signatureText (presented : Text) : Option Text := (parts presented).map fun p => p.2.2

/-- The cookie carries this digest as its signature. -/
def Carries (presented : Text) (signature : Digest) : Prop :=
  signatureText presented = some (env.encode64 signature)

/-- **What else digests are made for.** -/
inductive Purpose
  | csrf (sessionId : Uuid)
  | loginCode (challengeId : Uuid) (code : Text)
  | emailVerify (challengeId : Uuid) (code lowered : Text)
  | ip (address : Text)
  | rateLimit (bucket : Text)
  | unsubscribe (savedSearchId : Text)

/-- The name of a purpose. -/
def Purpose.domain : Purpose → Text
  | csrf _ => "csrf".toList
  | loginCode _ _ => "login_code".toList
  | emailVerify _ _ _ => "email_verify".toList
  | ip _ => "ip".toList
  | rateLimit _ => "ratelimit".toList
  | unsubscribe _ => "unsubscribe:saved_search".toList

/-- What is digested for a purpose. -/
def Purpose.value : Purpose → Text
  | csrf sessionId => env.formatUuid sessionId
  | loginCode challengeId code => env.formatUuid challengeId ++ ':' :: code
  | emailVerify challengeId code lowered =>
    env.formatUuid challengeId ++ ':' :: (code ++ ':' :: lowered)
  | ip address => address
  | rateLimit bucket => bucket
  | unsubscribe savedSearchId => savedSearchId

/-- The digest of a purpose. -/
def Purpose.digest (p : Purpose) : Digest := peppered env pepper p.domain (p.value env)

/-- **What is relied on**: the digest tells keys and messages apart, identifiers are read back
and have letters, digits and hyphens only, and a base64 that is read is the one that is
written. -/
structure Surroundings.Sound : Prop where
  mac_inj : ∀ k m k' m', env.mac k m = env.mac k' m' → k = k' ∧ m = m'
  uuid : ∀ id, env.parseUuid (env.formatUuid id) = some id
  uuid_char : ∀ id, ∀ c ∈ env.formatUuid id, c.isAlphanum = true ∨ c = '-'
  base64 : ∀ d, env.decode64 (env.encode64 d) = some d
  base64_strict : ∀ s d, env.decode64 s = some d → env.encode64 d = s

variable {env} {pepper}

/-! ### Numbers and digests -/

/-- A number has the characters of decimals. -/
theorem not_mem_showInt {c : Char} (hc : c.isDigit = false) (hsign : c ≠ '-') (n : ℤ) :
    c ∉ showInt n := by
  rw [showInt]
  split
  · simp [not_mem_toDigits hc, hsign]
  · exact not_mem_toDigits hc _

/-- The numbers of a signed word of 64 bits. -/
def FitsI64 (n : ℤ) : Prop := -2 ^ 63 ≤ n ∧ n < 2 ^ 63

/-- The seconds of every point in time fit. -/
theorem Moment.fits (t : Moment) : FitsI64 t.timestamp := by
  have hrange := t.in_range
  rw [FitsI64, timestamp]
  omega

/-- A moment before a whole second has fewer whole seconds. -/
theorem Moment.timestamp_lt_iff (t : Moment) (e : ℤ) :
    t.timestamp < e ↔ t.nanos < 10 ^ 9 * e := by
  rw [timestamp]
  omega

/-- A numeral without a sign is read by its digits. -/
theorem parseI64_of_unsigned {s : Text} (hplus : '+' ∉ s) (hminus : '-' ∉ s) :
    parseI64 s = ((parseDigits s).map fun n : ℕ => (n : ℤ)).filter
      fun n => -2 ^ 63 ≤ n && n < 2 ^ 63 := by
  unfold parseI64
  split
  next ds => exact absurd List.mem_cons_self hplus
  next ds => exact absurd List.mem_cons_self hminus
  next => rcases parseDigits s with _ | n <;> rfl

/-- A numeral with a minus is read by its digits. -/
theorem parseI64_neg (s : Text) :
    parseI64 ('-' :: s) = ((parseDigits s).map fun n : ℕ => -(n : ℤ)).filter
      fun n => -2 ^ 63 ≤ n && n < 2 ^ 63 := by
  unfold parseI64
  split
  next heq => exact absurd (List.cons.inj heq).1 (by decide)
  next ds heq =>
    obtain ⟨-, rfl⟩ := List.cons.inj heq
    rcases parseDigits s with _ | n <;> rfl
  next hother => exact absurd rfl (hother s)

/-- A number that fits is kept. -/
theorem filter_fits {n : ℤ} (h : FitsI64 n) :
    (some n).filter (fun n : ℤ => -2 ^ 63 ≤ n && n < 2 ^ 63) = some n := by
  rw [Option.filter_eq_some_iff, Bool.and_eq_true, decide_eq_true_eq, decide_eq_true_eq]
  exact ⟨rfl, h⟩

/-- **A number is read back as it was written.** -/
theorem parseI64_showInt {n : ℤ} (h : FitsI64 n) : parseI64 (showInt n) = some n := by
  rw [showInt]
  split
  next hneg =>
    have habs : -((n.natAbs : ℕ) : ℤ) = n := by omega
    rw [parseI64_neg, parseDigits_toDigits, Option.map_some, habs, filter_fits h]
  next hpos =>
    have habs : ((n.natAbs : ℕ) : ℤ) = n := by omega
    rw [parseI64_of_unsigned (not_mem_toDigits (by decide) _) (not_mem_toDigits (by decide) _),
      parseDigits_toDigits, Option.map_some, habs, filter_fits h]

/-- What is read fits. -/
theorem fits_of_parseI64 {s : Text} {n : ℤ} (h : parseI64 s = some n) : FitsI64 n := by
  unfold parseI64 at h
  have hrange := (Option.filter_eq_some_iff.mp h).2
  rwa [Bool.and_eq_true, decide_eq_true_eq, decide_eq_true_eq] at hrange

/-- A character that no identifier has. -/
theorem Surroundings.Sound.not_mem_uuid (h : env.Sound) {c : Char} (hc : c.isAlphanum = false)
    (hhyphen : c ≠ '-') (id : Uuid) : c ∉ env.formatUuid id := by
  intro hmem
  rcases h.uuid_char id c hmem with halnum | rfl
  · rw [hc] at halnum
    exact Bool.false_ne_true halnum
  · exact hhyphen rfl

/-- A text with one separator is put together in one way. -/
theorem append_sep_inj {sep : Char} {s t s' t' : Text} (hs : sep ∉ s) (ht : sep ∉ t)
    (heq : s' ++ sep :: t' = s ++ sep :: t) : s' = s ∧ t' = t := by
  rcases List.append_eq_append_iff.mp heq with ⟨_ | ⟨c, m⟩, hl, hr⟩ | ⟨_ | ⟨c, m⟩, hl, hr⟩
  · exact ⟨by simpa using hl.symm, (List.cons.inj hr).2⟩
  · -- the separator of the first would stand before that of the second
    obtain ⟨rfl, -⟩ := List.cons.inj hr
    exact absurd (hl ▸ List.mem_append_right _ List.mem_cons_self) hs
  · exact ⟨by simpa using hl, (List.cons.inj hr).2.symm⟩
  · have hmem : sep ∈ t := (List.cons.inj hr).2 ▸ List.mem_append_right _ List.mem_cons_self
    exact absurd hmem ht

/-- **A digest of a value without null characters is for one purpose only.** -/
theorem peppered_inj (h : env.Sound) {pepper' domain domain' value value' : Text}
    (hdomain : '\x00' ∉ domain) (hvalue : '\x00' ∉ value)
    (heq : peppered env pepper' domain' value' = peppered env pepper domain value) :
    pepper' = pepper ∧ domain' = domain ∧ value' = value := by
  obtain ⟨hpepper, hmessage⟩ := h.mac_inj _ _ _ _ heq
  exact ⟨hpepper, append_sep_inj hdomain hvalue hmessage⟩

/-- What is digested of a cookie has no null characters. -/
theorem devicePreimage_ne_null (h : env.Sound) (userId : Uuid) (expires : ℤ) :
    '\x00' ∉ devicePreimage env userId expires := by
  rw [devicePreimage, List.mem_append, List.mem_cons]
  rintro (huser | hcolon | hexpiry)
  · exact h.not_mem_uuid (by decide) (by decide) userId huser
  · exact absurd hcolon (by decide)
  · exact not_mem_showInt (by decide) (by decide) expires hexpiry

/-- **What is digested of a cookie is of one account and one time.** -/
theorem devicePreimage_inj (h : env.Sound) {userId userId' : Uuid} {expires expires' : ℤ}
    (he : FitsI64 expires) (he' : FitsI64 expires')
    (heq : devicePreimage env userId' expires' = devicePreimage env userId expires) :
    userId' = userId ∧ expires' = expires := by
  obtain ⟨huser, hexpiry⟩ := append_sep_inj (h.not_mem_uuid (by decide) (by decide) userId)
    (not_mem_showInt (by decide) (by decide) expires) heq
  constructor
  · exact Option.some.inj ((h.uuid userId').symm.trans (huser ▸ h.uuid userId))
  · have hread := parseI64_showInt he'
    rw [hexpiry, parseI64_showInt he] at hread
    exact (Option.some.inj hread).symm

/-! ### Cookies -/

/-- The parts of a cookie as it is written. -/
theorem parts_signedValue (h : env.Sound) (userId : Uuid) (expires : ℤ) :
    parts (signedValue env pepper userId expires) =
      some (env.formatUuid userId, showInt expires,
        env.encode64 (deviceSignature env pepper userId expires)) := by
  have hdigits : '.' ∉ showInt expires := not_mem_showInt (by decide) (by decide) _
  rw [parts, signedValue, splitOnce_append (h.not_mem_uuid (by decide) (by decide) userId)]
  simp only [splitOnce_append hdigits, Option.map_some]

/-- **What is accepted**: a cookie of three parts that name the account and a time that has not
come, in whatever spelling, and carry the signature over them. -/
theorem deviceRemembers_iff {presented : Text} {userId : Uuid} {now : Moment} :
    deviceRemembers env pepper presented userId now = true ↔
      ∃ user expiry signature expires, parts presented = some (user, expiry, signature) ∧
        env.parseUuid user = some userId ∧ parseI64 expiry = some expires ∧
        now.timestamp < expires ∧
        env.decode64 signature = some (deviceSignature env pepper userId expires) := by
  rw [deviceRemembers]
  constructor
  · intro hok
    rcases hparts : parts presented with _ | ⟨user, expiry, signature⟩
    · simp only [hparts, Bool.false_eq_true] at hok
    rcases huser : env.parseUuid user with _ | claimedUser
    · simp only [hparts, huser, Bool.false_eq_true] at hok
    rcases hexpiry : parseI64 expiry with _ | expires
    · simp only [hparts, huser, hexpiry, Bool.false_eq_true] at hok
    rcases hsignature : env.decode64 signature with _ | claimedSignature
    · simp only [hparts, huser, hexpiry, hsignature, Bool.false_eq_true] at hok
    simp only [hparts, huser, hexpiry, hsignature] at hok
    split at hok
    · exact absurd hok Bool.false_ne_true
    next hkept =>
      obtain ⟨hclaimed, hlater⟩ := not_or.mp hkept
      obtain rfl := not_not.mp hclaimed
      refine ⟨user, expiry, signature, expires, rfl, huser, hexpiry, not_le.mp hlater, ?_⟩
      rw [hsignature, of_decide_eq_true hok]
  · rintro ⟨user, expiry, signature, expires, hparts, huser, hexpiry, hlater, hsignature⟩
    have hkept : ¬ (userId ≠ userId ∨ expires ≤ now.timestamp) := by
      simpa using hlater
    simp only [hparts, huser, hexpiry, hsignature, if_neg hkept, decide_true]

/-- A cookie carries one digest. -/
theorem Carries.unique (h : env.Sound) {presented : Text} {d d' : Digest}
    (hd : Carries env presented d) (hd' : Carries env presented d') : d = d' := by
  have htext : env.encode64 d = env.encode64 d' := Option.some.inj (hd.symm.trans hd')
  have hread := h.base64 d
  rw [htext, h.base64] at hread
  exact (Option.some.inj hread).symm

/-- A cookie as it is written carries the signature over its account and its seconds. -/
theorem carries_signedValue (h : env.Sound) (userId : Uuid) (expires : ℤ) :
    Carries env (signedValue env pepper userId expires)
      (deviceSignature env pepper userId expires) := by
  rw [Carries, signatureText, parts_signedValue h]
  rfl

/-- No other purpose has the name of this one. -/
theorem Purpose.domain_ne_device (p : Purpose) : p.domain ≠ "device".toList := by
  cases p <;> exact of_decide_eq_true rfl

/-- **A cookie as it is written is accepted** for its account, as long as the seconds that it
states are later than now. -/
theorem deviceRemembers_signedValue (h : env.Sound) {userId : Uuid} {expires : ℤ} {now : Moment}
    (hfits : FitsI64 expires) (hlater : now.nanos < 10 ^ 9 * expires) :
    deviceRemembers env pepper (signedValue env pepper userId expires) userId now = true := by
  rw [deviceRemembers_iff, parts_signedValue h]
  exact ⟨_, _, _, _, rfl, h.uuid _, parseI64_showInt hfits, (now.timestamp_lt_iff _).mpr hlater,
    h.base64 _⟩

/-- What is accepted carries the signature for the account and a time that has not come. -/
theorem carries_of_remembers (h : env.Sound) {presented : Text} {userId : Uuid} {now : Moment}
    (hok : deviceRemembers env pepper presented userId now = true) :
    ∃ expires, FitsI64 expires ∧ now.timestamp < expires ∧
      Carries env presented (deviceSignature env pepper userId expires) := by
  obtain ⟨user, expiry, signature, expires, hparts, -, hexpiry, hlater, hsignature⟩ :=
    deviceRemembers_iff.mp hok
  refine ⟨expires, fits_of_parseI64 hexpiry, hlater, ?_⟩
  rw [Carries, signatureText, hparts, h.base64_strict _ _ hsignature]
  rfl

/-- A digest that a cookie for this account and time carries is the one made for them. -/
theorem peppered_of_carries (h : env.Sound) {presented pepper' domain value : Text}
    {userId : Uuid} {expires : ℤ}
    (hcarries : Carries env presented (deviceSignature env pepper userId expires))
    (hdigest : Carries env presented (peppered env pepper' domain value)) :
    pepper' = pepper ∧ domain = "device".toList ∧ value = devicePreimage env userId expires :=
  peppered_inj h (by decide) (devicePreimage_ne_null h userId expires)
    (hdigest.unique h hcarries)

/-- A cookie carries the signature of another as it is issued if both are for one pepper, account
and count of seconds. -/
theorem signatureText_deviceValue_iff (h : env.Sound) {presented pepper' : Text}
    {userId userId' : Uuid} {expires : ℤ} {expiresAt : Moment} (hfits : FitsI64 expires)
    (hcarries : Carries env presented (deviceSignature env pepper userId expires)) :
    signatureText presented = signatureText (deviceValue env pepper' userId' expiresAt) ↔
      pepper' = pepper ∧ userId' = userId ∧ expiresAt.timestamp = expires := by
  rw [show signatureText (deviceValue env pepper' userId' expiresAt) = some _ from
    carries_signedValue h userId' expiresAt.timestamp]
  constructor
  · intro hsame
    obtain ⟨hpepper, -, hvalue⟩ := peppered_of_carries h hcarries hsame
    exact ⟨hpepper, devicePreimage_inj h hfits expiresAt.fits hvalue⟩
  · rintro ⟨rfl, rfl, rfl⟩
    exact hcarries

/-- **An accepted cookie is one that was issued**: it carries the signature for exactly the
account and a count of seconds that is later than now. The cookies that are issued with this
signature are those for this account and this count of seconds, and no digest for another purpose
equals it. And a cookie is accepted for its account as long as the seconds it states have not
come. -/
theorem device_cookie (h : env.Sound) (userId : Uuid) (now : Moment) :
    (∀ presented, deviceRemembers env pepper presented userId now = true →
      ∃ expires : ℤ, now.nanos < 10 ^ 9 * expires ∧
        Carries env presented (deviceSignature env pepper userId expires) ∧
        (∀ pepper' userId' expiresAt,
          signatureText presented = signatureText (deviceValue env pepper' userId' expiresAt) ↔
            pepper' = pepper ∧ userId' = userId ∧ expiresAt.timestamp = expires) ∧
        (∀ pepper' domain value, Carries env presented (peppered env pepper' domain value) →
          pepper' = pepper ∧ domain = "device".toList ∧
            value = devicePreimage env userId expires) ∧
        ∀ pepper' (p : Purpose), ¬ Carries env presented (p.digest env pepper')) ∧
      ∀ expiresAt : Moment, now.nanos < 10 ^ 9 * expiresAt.timestamp →
        deviceRemembers env pepper (deviceValue env pepper userId expiresAt) userId now = true := by
  constructor
  · intro presented hok
    obtain ⟨expires, hfits, hlater, hcarries⟩ := carries_of_remembers h hok
    refine ⟨expires, (now.timestamp_lt_iff expires).mp hlater, hcarries, ?_, ?_, ?_⟩
    · intro pepper' userId' expiresAt
      exact signatureText_deviceValue_iff h hfits hcarries
    · intro pepper' domain value hdigest
      exact peppered_of_carries h hcarries hdigest
    · intro pepper' p hdigest
      exact p.domain_ne_device (peppered_of_carries h hcarries hdigest).2.1
  · intro expiresAt hlater
    exact deviceRemembers_signedValue h expiresAt.fits hlater

/-! ### A second too early -/

/-- Surroundings to present cookies in: a digest that shows its key in unary, and texts that are
their own base64. -/
def Surroundings.plain : Surroundings where
  mac := fun key message => List.replicate key.length 'k' ++ '.' :: (key ++ message)
  formatUuid := Nat.toDigits 10
  parseUuid := parseDigits
  encode64 := id
  decode64 := some

/-- The digest of `Surroundings.plain` tells keys and messages apart. -/
theorem plain_mac_inj (k m k' m' : Text)
    (h : Surroundings.plain.mac k m = Surroundings.plain.mac k' m') : k = k' ∧ m = m' := by
  have hunary (t : Text) : '.' ∉ List.replicate t.length 'k' := by
    rw [List.mem_replicate]
    exact fun hdot => absurd hdot.2 (by decide)
  have hsplit := splitOnce_append (t := k ++ m) (hunary k)
  have hshape : List.replicate k.length 'k' ++ '.' :: (k ++ m) =
      List.replicate k'.length 'k' ++ '.' :: (k' ++ m') := h
  rw [hshape, splitOnce_append (hunary k')] at hsplit
  obtain ⟨hlength, hrest⟩ := Prod.mk.inj (Option.some.inj hsplit)
  have hlen : k'.length = k.length := by simpa using congrArg List.length hlength
  obtain ⟨hk, hm⟩ := List.append_inj hrest hlen
  exact ⟨hk.symm, hm.symm⟩

theorem Surroundings.plain_sound : Surroundings.plain.Sound where
  mac_inj := plain_mac_inj
  uuid := parseDigits_toDigits
  uuid_char := by
    intro id c hc
    have hdigit : c.isDigit = true := Nat.isDigit_of_mem_toDigits (by decide) (by decide) hc
    exact .inl (by rw [Char.isAlphanum, hdigit, Bool.or_true])
  base64 := fun _ => rfl
  base64_strict := fun _ _ h => (Option.some.inj h).symm

/-- A moment of so many milliseconds. -/
def momentMs (ms : Fin 1000000) : Moment where
  nanos := 10 ^ 6 * ms.val
  in_range := by omega

/-- A cookie for 7 that lasts 200 seconds is presented after 100 seconds. -/
theorem device_cookie_issued :
    deviceRemembers Surroundings.plain "pepper".toList
      (deviceValue Surroundings.plain "pepper".toList 7 (momentMs 200000)) 7 (momentMs 100000) =
        true ∧
      ∃ expires : ℤ, (momentMs 100000).nanos < 10 ^ 9 * expires ∧
        Carries Surroundings.plain
          (deviceValue Surroundings.plain "pepper".toList 7 (momentMs 200000))
          (deviceSignature Surroundings.plain "pepper".toList 7 expires) := by
  obtain ⟨hissued, haccepted⟩ :=
    @device_cookie _ "pepper".toList Surroundings.plain_sound 7 (momentMs 100000)
  have hok := haccepted (momentMs 200000) (by decide)
  obtain ⟨expires, hlater, hcarries, -⟩ := hissued _ hok
  exact ⟨hok, expires, hlater, hcarries⟩

/-- **A cookie is forgotten before its expiry**, in the second that its expiry is in: here it
expires at 100.7 seconds and is refused at 100.3. And what carries the signature over a count of
seconds that no expiry has is accepted, though it is issued with no cookie. -/
theorem deviceRemembers_lastSecond :
    ((momentMs 100300).nanos < (momentMs 100700).nanos ∧
      deviceRemembers Surroundings.plain "pepper".toList
        (deviceValue Surroundings.plain "pepper".toList 7 (momentMs 100700)) 7
          (momentMs 100300) = false) ∧
      ∃ presented, deviceRemembers Surroundings.plain "pepper".toList presented 7
          (momentMs 100300) = true ∧
        ∀ userId expiresAt, signatureText presented ≠
          signatureText (deviceValue Surroundings.plain "pepper".toList userId expiresAt) := by
  constructor
  · exact ⟨by decide, by decide +kernel⟩
  · -- a year that no calendar date has, in seconds that fit the word
    have hfits : FitsI64 (9 * 10 ^ 12) := by
      rw [FitsI64]
      omega
    refine ⟨signedValue Surroundings.plain "pepper".toList 7 (9 * 10 ^ 12),
      deviceRemembers_signedValue Surroundings.plain_sound hfits (by decide), ?_⟩
    intro userId expiresAt hsame
    obtain ⟨-, -, hseconds⟩ := (signatureText_deviceValue_iff Surroundings.plain_sound hfits
      (carries_signedValue Surroundings.plain_sound 7 _)).mp hsame
    have hrange := expiresAt.in_range
    rw [Moment.timestamp] at hseconds
    omega

end Marketplace.Cookie
