import Mathlib.Algebra.GroupWithZero.Nat
import Mathlib.Data.List.Infix
import Mathlib.Tactic.Common
import Marketplace.Words.Ascii

/-!
# Text, passwords and digests

What the service does to strings before any of them reaches the database: trimming,
the shape of an address (`Marketplace.looksLikeEmail`), the password policy
(`Marketplace.checkPolicy`), and the digests under which codes and tokens are
stored. A string is the list of its characters.

Three kinds of things are not computed here and come as a `Marketplace.Env`: the
cryptography (Argon2, HMAC, SHA-256), the random draws, and the case tables of
Unicode. The salt of a password hash is the process that draws it, since no two
requests draw the same one.
-/

namespace Marketplace

/-- A string, as the list of its characters. -/
abbrev Text := List Char

/-- A digest. -/
abbrev Digest := List Char

/-- An identifier. -/
abbrev Uuid := ℕ

/-- A point in time, in seconds. -/
abbrev Instant := ℕ

/-! ### Errors -/

/-- What a request can be refused with. -/
inductive AppError
  /-- The request was understood and rejected. -/
  | invalid (message : String)
  /-- No valid session, or no valid credentials. -/
  | unauthenticated
  /-- The caller may not do this. -/
  | forbidden
  /-- There is no such thing, or none the caller may know of. -/
  | notFound
  /-- The request conflicts with existing state. -/
  | conflict (message : String)
  /-- Anything unexpected; the cause is for the log. -/
  | internal (cause : String)
  deriving DecidableEq

/-! ### Strings -/

/-- `char::is_whitespace`: the characters with the Unicode property `White_Space`. -/
def isWhitespace (c : Char) : Bool :=
  let n := c.toNat
  (9 ≤ n && n ≤ 13) || n = 32 || n = 0x85 || n = 0xA0 || n = 0x1680 ||
    (0x2000 ≤ n && n ≤ 0x200A) || n = 0x2028 || n = 0x2029 || n = 0x202F || n = 0x205F || n = 0x3000

/-- What is printed of ASCII is no blank. -/
theorem isWhitespace_of_printed {c : Char} (hlow : 33 ≤ c.toNat) (hhigh : c.toNat ≤ 126) :
    isWhitespace c = false := by
  simp only [isWhitespace, Bool.or_eq_false_iff, Bool.and_eq_false_iff, decide_eq_false_iff_not]
  omega

theorem isWhitespace_of_isDigit {c : Char} (h : c.isDigit = true) : isWhitespace c = false := by
  have hrange := Ascii.isDigit_iff.mp h
  exact isWhitespace_of_printed (by omega) (by omega)

/-- `str::trim`. -/
def trim (s : Text) : Text :=
  ((s.dropWhile isWhitespace).reverse.dropWhile isWhitespace).reverse

/-- `str::len`: the length in bytes. -/
def byteLen (s : Text) : ℕ := (s.map Char.utf8Size).sum

/-- `str::split_once`: the text before the first separator, and the text after it. -/
def splitOnce (sep : Char) : Text → Option (Text × Text)
  | [] => none
  | c :: cs => if c = sep then some ([], cs) else (splitOnce sep cs).map fun p => (c :: p.1, p.2)

/-- `str::eq_ignore_ascii_case`. -/
def eqIgnoreAsciiCase (s t : Text) : Bool := s.map Char.toLower = t.map Char.toLower

/-- What the service takes for an address. -/
def looksLikeEmail (value : Text) : Bool :=
  if byteLen value > 254 || value.any isWhitespace then false
  else match splitOnce '@' value with
    | none => false
    | some (loc, domain) =>
      !loc.isEmpty && !domain.isEmpty && domain.contains '.' && !domain.contains '@'

/-- The two `CHECK` constraints on `users.email`. -/
def emailCheck (email : Text) : Bool :=
  email.length ≤ 254 && !email.any isWhitespace &&
    match splitOnce '@' email with
    | none => false
    | some (loc, domain) =>
      !loc.isEmpty && !domain.contains '@' && (domain.drop 1).dropLast.contains '.'

/-- The decimal digit `n % 10`. -/
def digit (n : ℕ) : Char := Char.ofNat (48 + n % 10)

/-- `format!("{:06}", n)`, for `n` below a million. -/
def sixDigits (n : ℕ) : Text :=
  [digit (n / 100000), digit (n / 10000), digit (n / 1000), digit (n / 100), digit (n / 10),
    digit n]

/-! ### What is not computed here -/

/-- **The surroundings of the service**: cryptography, random draws, case tables, and
the configured lifetimes of sessions. -/
structure Env where
  /-- `str::to_lowercase`. -/
  toLowercase : Text → Text
  /-- The generated column `email_norm`, `lower(btrim(email))`. -/
  emailNorm : Text → Text
  /-- The text of an identifier. -/
  formatUuid : Uuid → Text
  /-- The keyed digest of a value in a domain, under the server's pepper. -/
  peppered : Text → Text → Digest
  /-- The digest of a high-entropy token. -/
  digestToken : Text → Digest
  /-- The PHC string of a password, hashed under the salt that a process draws. -/
  hash : ℕ → Text → Text
  /-- Whether a password matches a PHC string. -/
  verify : Text → Text → Bool
  /-- Whether a PHC string has weaker parameters than the current ones. -/
  needsRehash : Text → Bool
  /-- The random word a process draws for a code. -/
  codeWord : ℕ → ℕ
  /-- The random token a process draws. -/
  rawToken : ℕ → Text
  /-- How long an idle session lives. -/
  sessionIdle : ℕ
  /-- How long any session lives. -/
  sessionAbsolute : ℕ

/-- Surroundings to run a schedule in: digests that keep what they digest, and a hash
that shows its salt in unary. -/
def Env.plain : Env where
  toLowercase := List.map Char.toLower
  emailNorm := fun email => (trim email).map Char.toLower
  formatUuid := fun id => List.replicate id 'u'
  peppered := fun domain value => domain ++ '.' :: value
  digestToken := fun token => '#' :: token
  hash := fun salt password => List.replicate salt 's' ++ '$' :: password
  verify := fun password phc => (splitOnce '$' phc).any fun p => p.2 = password
  needsRehash := fun _ => false
  codeWord := fun i => i
  rawToken := fun i => List.replicate i 't'
  sessionIdle := 1000
  sessionAbsolute := 2000

/-- The hash of `Env.plain` shows its salt. -/
theorem Env.plain_salt (i j : ℕ) (p q : Text) (h : Env.plain.hash i p = Env.plain.hash j q) :
    i = j := by
  induction i generalizing j with
  | zero =>
    cases j with
    | zero => rfl
    | succ j => exact absurd (List.cons.inj h).1 (by decide)
  | succ i ih =>
    cases j with
    | zero => exact absurd (List.cons.inj h).1 (by decide)
    | succ j => exact congrArg _ (ih j (List.cons.inj h).2)

variable (env : Env)

/-! ### The password policy -/

/-- The shortest password, in characters. -/
def minPasswordLen : ℕ := 12

/-- The longest password, in bytes. -/
def maxPasswordLen : ℕ := 1024

/-- Long passwords that are among the first anyone tries. -/
def denylist : List String :=
  ["123456789012", "1234567890123", "12345678901234", "123456789012345", "1234567890123456",
    "passwordpassword", "password123456", "password1234567", "qwertyuiopasdfgh",
    "qwertyuiop123456", "adminadminadmin", "letmeinletmein", "iloveyouiloveyou", "welcome123456",
    "abcdefghijklmnop", "aaaaaaaaaaaa", "111111111111", "000000000000", "trustno1trustno1",
    "correcthorsebatterystaple"]

/-- **The password policy**: the reason a password is refused, if it is. -/
def checkPolicy (password email : Text) : Option AppError :=
  if password.length < minPasswordLen then
    some (.invalid "Password must be at least 12 characters.")
  else if byteLen password > maxPasswordLen then
    some (.invalid "Password must be at most 1024 bytes.")
  else
    let lowered := env.toLowercase password
    if denylist.any fun s => s.toList = lowered then
      some (.invalid "That password is too common. Choose something less guessable.")
    else
      let localPart := env.toLowercase (trim (email.takeWhile (· ≠ '@')))
      if 4 ≤ localPart.length ∧ localPart <:+: lowered then
        some (.invalid "Password must not contain your email address.")
      else none

/-! ### Codes and their digests -/

/-- How long a code lives. -/
def codeTtlSecs : ℕ := 600

/-- Wrong guesses before the challenge dies. -/
def maxCodeAttempts : ℕ := 5

/-- How long a reset link lives. -/
def resetTtlSecs : ℕ := 3600

/-- How long a browser stays remembered. -/
def deviceTtl : ℕ := 90 * 86400

/-- The code that process `i` draws. -/
def generateCode (i : ℕ) : Text := sixDigits (env.codeWord i % 1000000)

/-- The stored digest of a code, bound to its challenge. -/
def codeHash (challengeId : Uuid) (code : Text) : Digest :=
  env.peppered "login_code".toList (env.formatUuid challengeId ++ ':' :: code)

/-- What is digested of an email-verification code. -/
def emailVerifyPreimage (challengeId : Uuid) (code address : Text) : Text :=
  env.formatUuid challengeId ++ ':' :: (code ++ ':' :: env.toLowercase address)

/-- The digest of an email-verification code, bound to the address it proves. -/
def emailVerifyHash (challengeId : Uuid) (code address : Text) : Digest :=
  env.peppered "email_verify".toList (emailVerifyPreimage env challengeId code address)

/-- The value of a remembered-device cookie, once it has been split at its dots and
its parts decoded. -/
structure DeviceCookie where
  /-- The account the cookie claims. -/
  user : Uuid
  /-- The expiry the cookie claims. -/
  expires : ℕ
  /-- The signature over the two. -/
  signature : Digest
  deriving DecidableEq

/-- The signature of a device cookie. -/
def deviceSignature (userId : Uuid) (expires : ℕ) : Digest :=
  env.peppered "device".toList (env.formatUuid userId ++ ':' :: (toString expires).toList)

/-- The cookie for a browser that just completed a code. -/
def deviceValue (userId : Uuid) (expires : Instant) : DeviceCookie :=
  ⟨userId, expires, deviceSignature env userId expires⟩

/-- Whether a presented device cookie remembers this account, now. -/
def deviceRemembers (presented : DeviceCookie) (userId : Uuid) (now : Instant) : Bool :=
  if presented.user ≠ userId || presented.expires ≤ now then false
  else deviceSignature env userId presented.expires = presented.signature

end Marketplace
