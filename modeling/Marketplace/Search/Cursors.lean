import Marketplace.Board.Query
import Marketplace.Directory.Query
import Marketplace.Time.Rfc3339

/-!
# The text of a page cursor, field by field

The job board and the directory write a cursor as three fields between null characters: the
identifier, the sort key or nothing, and a timestamp or a name. The keys here are doubles,
which a text may spell without their being numbers, and the timestamps are of any type.

What is read is finite and is read back as it was written, and a payload of two fields is
refused (`Marketplace.Search.cursors_round_trip`), but for one thing: a timestamp may be read
with an offset that takes it out of the years that RFC 3339 writes.
`Marketplace.Search.decodeJob_eq` and `Marketplace.Search.decodeSearch_eq` say that the cursors
of `Marketplace.Board` and `Marketplace.Directory` are these.
-/

namespace Marketplace.Search

/-- A double. -/
inductive Double
  | finite (q : ℚ)
  | infinite (negative : Bool)
  | nan
  deriving DecidableEq

/-- `f64::is_finite`. -/
def Double.isFinite : Double → Bool
  | finite _ => true
  | _ => false

/-- **What writes and reads the fields**: the libraries the codecs rest on. -/
structure Codec (τ : Type) where
  /-- URL-safe base64 without padding, of the bytes of a text. -/
  encode64 : Text → Text
  /-- The text that a URL-safe base64 stands for, if it stands for bytes in UTF-8. -/
  decode64 : Text → Option Text
  formatUuid : Uuid → Text
  parseUuid : Text → Option Uuid
  /-- `f64::to_string`. -/
  formatF64 : Double → Text
  /-- `str::parse::<f64>`. -/
  parseF64 : Text → Option Double
  /-- `DateTime::to_rfc3339`. -/
  toRfc3339 : τ → Text
  /-- `DateTime::parse_from_rfc3339`, taken to UTC. -/
  parseRfc3339 : Text → Option τ

/-- A cursor, its last field as a text. -/
structure Payload where
  id : Uuid
  sortKey : Option Double
  rest : Text
  deriving DecidableEq

/-- A cursor of the job board. -/
structure JobCursor (τ : Type) where
  createdAt : τ
  id : Uuid
  sortKey : Option Double
  deriving DecidableEq

/-- A cursor of the directory. -/
structure SearchCursor where
  name : Text
  id : Uuid
  sortKey : Option Double
  deriving DecidableEq

section Codecs

variable {τ : Type} (codec : Codec τ)

/-- The three fields, written. -/
def encodePayload (p : Payload) : Text :=
  codec.encode64 (codec.formatUuid p.id ++ '\x00' ::
    ((p.sortKey.map codec.formatF64).getD [] ++ '\x00' :: p.rest))

/-- The key of a cursor, if there is one. -/
def parseKey (key : Text) : Except AppError (Option Double) :=
  if key.isEmpty then .ok none
  else match codec.parseF64 key with
    | some value => .ok (some value)
    | none => .error invalidCursor

/-- The key of a cursor, which has to be a number where there is one. -/
def readKey (key : Text) : Except AppError (Option Double) := do
  let sortKey ← parseKey codec key
  if sortKey.any fun value => !value.isFinite then throw invalidCursor else return sortKey

/-- **The three fields, read.** -/
def decodePayload (value : Text) : Except AppError Payload := do
  let some text := codec.decode64 value | throw invalidCursor
  let some (id, rest) := splitOnce '\x00' text | throw invalidCursor
  let some (key, rest) := splitOnce '\x00' rest | throw invalidCursor
  let sortKey ← readKey codec key
  let some id := codec.parseUuid id | throw invalidCursor
  return ⟨id, sortKey, rest⟩

/-- `encode_cursor` of the job board. -/
def encodeJob (c : JobCursor τ) : Text :=
  encodePayload codec ⟨c.id, c.sortKey, codec.toRfc3339 c.createdAt⟩

/-- `decode_cursor` of the job board. -/
def decodeJob (value : Text) : Except AppError (JobCursor τ) := do
  let p ← decodePayload codec value
  let some createdAt := codec.parseRfc3339 p.rest | throw invalidCursor
  return ⟨createdAt, p.id, p.sortKey⟩

/-- `encode_cursor` of the directory. -/
def encodeSearch (c : SearchCursor) : Text := encodePayload codec ⟨c.id, c.sortKey, c.name⟩

/-- `decode_cursor` of the directory. -/
def decodeSearch (value : Text) : Except AppError SearchCursor := do
  let p ← decodePayload codec value
  return ⟨p.rest, p.id, p.sortKey⟩

/-- A key that is a number, or none. -/
def FiniteKey (key : Option Double) : Prop := ∀ d ∈ key, d.isFinite = true

/-- **What the libraries promise**: what they write is read back, timestamps as far as `fits`
says, and the text of an identifier or of a number is free of null characters. -/
structure Lossless (fits : τ → Prop) : Prop where
  base64 : ∀ s, codec.decode64 (codec.encode64 s) = some s
  uuid : ∀ id, codec.parseUuid (codec.formatUuid id) = some id
  uuid_ne_null : ∀ id, '\x00' ∉ codec.formatUuid id
  float : ∀ q, codec.parseF64 (codec.formatF64 (.finite q)) = some (.finite q)
  float_ne_nil : ∀ q, codec.formatF64 (.finite q) ≠ []
  float_ne_null : ∀ q, '\x00' ∉ codec.formatF64 (.finite q)
  rfc3339 : ∀ t, fits t → codec.parseRfc3339 (codec.toRfc3339 t) = some t

variable {codec} {fits : τ → Prop}

/-! ### Keys -/

/-- A key is a number or none. -/
theorem finiteKey_iff {key : Option Double} :
    FiniteKey key ↔ (key.any fun value => !value.isFinite) = false := by
  rcases key with _ | d <;> simp [FiniteKey]

/-- **A key that is read is a number**, or none. -/
theorem finiteKey_of_readKey {text : Text} {key : Option Double} (h : readKey codec text = .ok key) :
    FiniteKey key := by
  rw [finiteKey_iff]
  rw [readKey] at h
  rcases hk : parseKey codec text with e | k
  · rw [hk] at h
    exact absurd h (by simp [bind, Except.bind])
  · rw [hk] at h
    by_cases hinfinite : (k.any fun value => !value.isFinite) = true
    · simp only [bind, Except.bind, hinfinite, if_true] at h
      exact absurd h (by simp [throw, throwThe, MonadExceptOf.throw])
    · simp only [bind, Except.bind, hinfinite] at h
      obtain rfl := Except.ok.inj h
      simpa using hinfinite

/-- A key that is a number is read back as it was written. -/
theorem readKey_format (h : Lossless codec fits) {key : Option Double} (hkey : FiniteKey key) :
    '\x00' ∉ (key.map codec.formatF64).getD [] ∧
      readKey codec ((key.map codec.formatF64).getD []) = .ok key := by
  rcases key with _ | q | negative | _
  · exact ⟨by simp, rfl⟩
  · have hne : codec.formatF64 (.finite q) ≠ [] := h.float_ne_nil q
    refine ⟨h.float_ne_null q, ?_⟩
    simp [readKey, parseKey, h.float, hne, pure, Except.pure, bind, Except.bind, Double.isFinite]
  · exact absurd (hkey _ rfl) (by simp [Double.isFinite])
  · exact absurd (hkey _ rfl) (by simp [Double.isFinite])

/-! ### Payloads -/

/-- **What is written is read back.** -/
theorem decodePayload_encodePayload (h : Lossless codec fits) {p : Payload}
    (hkey : FiniteKey p.sortKey) : decodePayload codec (encodePayload codec p) = .ok p := by
  obtain ⟨hnull, hread⟩ := readKey_format h hkey
  rw [decodePayload, encodePayload, h.base64]
  simp only [splitOnce_append (h.uuid_ne_null p.id), splitOnce_append hnull, hread, h.uuid]
  rfl

/-- **What is read has a number for its key**, or none. -/
theorem finiteKey_of_decode {value : Text} {p : Payload} (h : decodePayload codec value = .ok p) :
    FiniteKey p.sortKey := by
  rw [decodePayload] at h
  rcases htext : codec.decode64 value with _ | text
  · simp only [htext] at h
    exact absurd h (by simp [throw, throwThe, MonadExceptOf.throw])
  simp only [htext] at h
  rcases hid : splitOnce '\x00' text with _ | ⟨id, rest⟩
  · simp only [hid] at h
    exact absurd h (by simp [throw, throwThe, MonadExceptOf.throw])
  simp only [hid] at h
  rcases hk : splitOnce '\x00' rest with _ | ⟨key, rest'⟩
  · simp only [hk] at h
    exact absurd h (by simp [throw, throwThe, MonadExceptOf.throw])
  simp only [hk] at h
  rcases hread : readKey codec key with _ | k
  · rw [hread] at h
    exact absurd h (by simp [bind, Except.bind])
  rw [hread] at h
  rcases huuid : codec.parseUuid id with _ | u
  · simp only [huuid] at h
    exact absurd h (by simp [bind, Except.bind, throw, throwThe, MonadExceptOf.throw])
  · simp only [huuid] at h
    obtain rfl := Except.ok.inj h
    exact finiteKey_of_readKey hread

/-- **Two fields are refused.** -/
theorem decodePayload_two {value a b : Text} (hvalue : codec.decode64 value = some (a ++ '\x00' :: b))
    (ha : '\x00' ∉ a) (hb : '\x00' ∉ b) : decodePayload codec value = .error invalidCursor := by
  rw [decodePayload, hvalue]
  simp only [splitOnce_append ha, splitOnce_eq_none hb]
  rfl

/-! ### Cursors -/

/-- A cursor of the job board that is read, by its payload. -/
theorem decodeJob_eq_ok {value : Text} {c : JobCursor τ} :
    decodeJob codec value = .ok c ↔ ∃ rest, decodePayload codec value = .ok ⟨c.id, c.sortKey, rest⟩ ∧
      codec.parseRfc3339 rest = some c.createdAt := by
  rw [decodeJob]
  rcases hp : decodePayload codec value with e | ⟨id, key, rest⟩
  · simp [bind, Except.bind]
  · rcases ht : codec.parseRfc3339 rest with _ | t
    · simp [bind, Except.bind, ht, throw, throwThe, MonadExceptOf.throw]
    · rcases c with ⟨createdAt, id', key'⟩
      simp only [bind, Except.bind, ht, pure, Except.pure, Except.ok.injEq, JobCursor.mk.injEq,
        Payload.mk.injEq]
      constructor
      · rintro ⟨rfl, rfl, rfl⟩
        exact ⟨rest, ⟨rfl, rfl, rfl⟩, ht⟩
      · rintro ⟨rest', ⟨rfl, rfl, rfl⟩, ht'⟩
        exact ⟨Option.some.inj (ht.symm.trans ht'), rfl, rfl⟩

/-- A cursor of the directory that is read, by its payload. -/
theorem decodeSearch_eq_ok {value : Text} {c : SearchCursor} :
    decodeSearch codec value = .ok c ↔ decodePayload codec value = .ok ⟨c.id, c.sortKey, c.name⟩ := by
  rw [decodeSearch]
  rcases decodePayload codec value with e | ⟨id, key, rest⟩
  · simp [bind, Except.bind]
  · rcases c with ⟨name, id', key'⟩
    simp only [bind, Except.bind, pure, Except.pure, Except.ok.injEq, SearchCursor.mk.injEq,
      Payload.mk.injEq]
    exact ⟨fun ⟨hname, hid, hkey⟩ => ⟨hid, hkey, hname⟩, fun ⟨hid, hkey, hname⟩ => ⟨hname, hid, hkey⟩⟩

/-- A cursor of the job board is read back. -/
theorem decodeJob_encodeJob (h : Lossless codec fits) {c : JobCursor τ} (hkey : FiniteKey c.sortKey)
    (hfits : fits c.createdAt) : decodeJob codec (encodeJob codec c) = .ok c :=
  decodeJob_eq_ok.mpr ⟨_, decodePayload_encodePayload h hkey, h.rfc3339 _ hfits⟩

/-- A cursor of the directory is read back, whatever its name is. -/
theorem decodeSearch_encodeSearch (h : Lossless codec fits) {c : SearchCursor}
    (hkey : FiniteKey c.sortKey) : decodeSearch codec (encodeSearch codec c) = .ok c :=
  decodeSearch_eq_ok.mpr (decodePayload_encodePayload h hkey)

/-- **Cursors are read back as they were written**, and what is read at all has a number for its
key or none and is read back again, a timestamp as far as it fits; two fields are refused. -/
theorem cursors_round_trip (codec : Codec τ) (fits : τ → Prop) (h : Lossless codec fits) :
    (∀ c : JobCursor τ, FiniteKey c.sortKey → fits c.createdAt →
      decodeJob codec (encodeJob codec c) = .ok c) ∧
    (∀ c : SearchCursor, FiniteKey c.sortKey → decodeSearch codec (encodeSearch codec c) = .ok c) ∧
    (∀ value c, decodeJob codec value = .ok c → FiniteKey c.sortKey ∧
      (fits c.createdAt → decodeJob codec (encodeJob codec c) = .ok c)) ∧
    (∀ value c, decodeSearch codec value = .ok c → FiniteKey c.sortKey ∧
      decodeSearch codec (encodeSearch codec c) = .ok c) ∧
    ∀ value a b, codec.decode64 value = some (a ++ '\x00' :: b) → '\x00' ∉ a → '\x00' ∉ b →
      decodeJob codec value = .error invalidCursor ∧
        decodeSearch codec value = .error invalidCursor := by
  refine ⟨fun c => decodeJob_encodeJob h, fun c => decodeSearch_encodeSearch h, ?_, ?_, ?_⟩
  · intro value c hc
    obtain ⟨rest, hp, -⟩ := decodeJob_eq_ok.mp hc
    have hkey : FiniteKey c.sortKey := finiteKey_of_decode hp
    exact ⟨hkey, decodeJob_encodeJob h hkey⟩
  · intro value c hc
    have hkey : FiniteKey c.sortKey := finiteKey_of_decode (decodeSearch_eq_ok.mp hc)
    exact ⟨hkey, decodeSearch_encodeSearch h hkey⟩
  · intro value a b hvalue ha hb
    have hrefused := decodePayload_two hvalue ha hb
    rw [decodeJob, decodeSearch, hrefused]
    exact ⟨rfl, rfl⟩

end Codecs

/-! ### The cursors of the board and of the directory -/

section Surroundings

/-- Surroundings in which numbers and timestamps are read and written by a codec. -/
def Codec.env (codec : Codec Instant) (env : Env) : Env :=
  { env with
    parseFloat := fun s =>
      match codec.parseF64 s with
      | some (.finite q) => some q
      | _ => none
    formatFloat := fun q => codec.formatF64 (.finite q)
    parseUuid := codec.parseUuid
    formatUuid := codec.formatUuid
    parseRfc3339 := codec.parseRfc3339
    toRfc3339 := codec.toRfc3339
    base64 := codec.encode64
    unbase64 := codec.decode64 }

variable (codec : Codec Instant) (env : Env)

/-- A key is read alike. -/
theorem readKey_eq (key : Text) :
    readKey codec key =
      (if key.isEmpty then .ok none
        else match (codec.env env).parseFloat key with
          | some q => .ok (some (.finite q))
          | none => .error invalidCursor) := by
  have hfloat : (codec.env env).parseFloat key =
      match codec.parseF64 key with
      | some (.finite q) => some q
      | _ => none := rfl
  rw [readKey, parseKey, hfloat]
  split
  · rfl
  · rcases codec.parseF64 key with _ | _ | _ | _ <;> rfl

/-- **The fields of a cursor are read alike.** -/
theorem decodePayload_eq (value : Text) :
    decodePayload codec value =
      (decodeFields (codec.env env) value).map fun p => ⟨p.1, p.2.1.map .finite, p.2.2⟩ := by
  have htext : (codec.env env).unbase64 value = codec.decode64 value := rfl
  have huuid : (codec.env env).parseUuid = codec.parseUuid := rfl
  rw [decodePayload, decodeFields, htext, huuid]
  rcases codec.decode64 value with _ | text
  · rfl
  dsimp only
  rcases splitOnce '\x00' text with _ | ⟨id, rest⟩
  · rfl
  dsimp only
  rcases splitOnce '\x00' rest with _ | ⟨key, rest'⟩
  · rfl
  dsimp only
  rw [readKey_eq codec env]
  by_cases hempty : key.isEmpty = true
  · rw [if_pos hempty, if_pos hempty]
    rcases codec.parseUuid id with _ | u <;> rfl
  · rw [if_neg hempty, if_neg hempty]
    rcases (codec.env env).parseFloat key with _ | q
    · rfl
    · rcases codec.parseUuid id with _ | u <;> rfl

/-- **The cursors of the job board** are read as they are there. -/
theorem decodeJob_eq (value : Text) :
    decodeJob codec value = (Board.decodeCursor (codec.env env) value).map fun c =>
      ⟨c.createdAt, c.id, c.sortKey.map .finite⟩ := by
  have htime : (codec.env env).parseRfc3339 = codec.parseRfc3339 := rfl
  rw [decodeJob, Board.decodeCursor, decodePayload_eq codec env, htime]
  rcases decodeFields (codec.env env) value with e | ⟨id, key, rest⟩
  · rfl
  · simp only [bind, Except.bind, Except.map]
    rcases codec.parseRfc3339 rest with _ | t <;> rfl

/-- **The cursors of the directory** are read as they are there. -/
theorem decodeSearch_eq (value : Text) :
    decodeSearch codec value = (Directory.decodeCursor (codec.env env) value).map fun c =>
      ⟨c.name, c.id, c.sortKey.map .finite⟩ := by
  rw [decodeSearch, Directory.decodeCursor, decodePayload_eq codec env]
  rcases decodeFields (codec.env env) value with e | ⟨id, key, rest⟩ <;> rfl

end Surroundings

/-! ### A codec with a calendar -/

/-- The text of a double, in decimal. -/
def formatDouble : Double → Text
  | .finite q => Env.plain.formatFloat q
  | .infinite negative => if negative then "-inf".toList else "inf".toList
  | .nan => "NaN".toList

/-- The double of a text. -/
def parseDouble (s : Text) : Option Double :=
  if s = "inf".toList then some (.infinite false)
  else if s = "-inf".toList then some (.infinite true)
  else if s = "NaN".toList then some .nan
  else (Env.plain.parseFloat s).map .finite

/-- A number is read back. -/
theorem parseDouble_formatDouble (q : ℚ) :
    parseDouble (formatDouble (.finite q)) = some (.finite q) := by
  have hread : Env.plain.parseFloat (Env.plain.formatFloat q) = some q := Env.plain_roundTrips.float q
  have hword : ∀ w, Env.plain.parseFloat w = none → Env.plain.formatFloat q ≠ w := by
    rintro w hw rfl
    exact absurd (hread.symm.trans hw) (Option.some_ne_none q)
  rw [formatDouble, parseDouble, if_neg (hword _ (by decide +kernel)),
    if_neg (hword _ (by decide +kernel)), if_neg (hword _ (by decide +kernel)), hread]
  rfl

/-- A codec that writes numbers in decimal and timestamps, in seconds since the year 0, by the
calendar. -/
def calendar : Codec ℤ where
  encode64 := id
  decode64 := some
  formatUuid := Env.plain.formatUuid
  parseUuid := Env.plain.parseUuid
  formatF64 := formatDouble
  parseF64 := parseDouble
  toRfc3339 := Rfc3339.format
  parseRfc3339 := Rfc3339.parse

/-- What it writes is read back, timestamps of the years 0 to 9999. -/
theorem lossless_calendar : Lossless calendar Rfc3339.FourDigits where
  base64 _ := rfl
  uuid := Env.plain_roundTrips.uuid
  uuid_ne_null := Env.plain_roundTrips.uuid_ne_null
  float := parseDouble_formatDouble
  float_ne_nil := Env.plain_roundTrips.float_ne_nil
  float_ne_null := Env.plain_roundTrips.float_ne_null
  rfc3339 _ h := Rfc3339.parse_format h

/-- The cursors of the calendar are read back. -/
theorem cursors_round_trip_calendar :
    (∀ c : JobCursor ℤ, FiniteKey c.sortKey → Rfc3339.FourDigits c.createdAt →
      decodeJob calendar (encodeJob calendar c) = .ok c) ∧
    (∀ c : SearchCursor, FiniteKey c.sortKey →
      decodeSearch calendar (encodeSearch calendar c) = .ok c) ∧
    (∀ value c, decodeJob calendar value = .ok c → FiniteKey c.sortKey ∧
      (Rfc3339.FourDigits c.createdAt → decodeJob calendar (encodeJob calendar c) = .ok c)) ∧
    (∀ value c, decodeSearch calendar value = .ok c → FiniteKey c.sortKey ∧
      decodeSearch calendar (encodeSearch calendar c) = .ok c) ∧
    ∀ value a b, calendar.decode64 value = some (a ++ '\x00' :: b) → '\x00' ∉ a → '\x00' ∉ b →
      decodeJob calendar value = .error invalidCursor ∧
        decodeSearch calendar value = .error invalidCursor :=
  cursors_round_trip calendar Rfc3339.FourDigits lossless_calendar

/-- The last hour of the year 9999, somewhere west of Greenwich. -/
def lastHour : Text := "7".toList ++ '\x00' :: '\x00' :: "9999-12-31T23:59:59-01:00".toList

/-- **A cursor that is read and not read back**: its timestamp, taken to UTC, is of the year 10000,
and no text with such a year is read. -/
theorem lastHour_lost :
    Lossless calendar Rfc3339.FourDigits ∧
      decodeJob calendar lastHour = .ok ⟨315569523599, 7, none⟩ ∧
      decodeJob calendar (encodeJob calendar ⟨315569523599, 7, none⟩) = .error invalidCursor :=
  ⟨lossless_calendar, by decide +kernel, by decide +kernel⟩

end Marketplace.Search
