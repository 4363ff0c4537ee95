import Marketplace.Auth.Text
import Mathlib.Algebra.Order.Ring.Unbundled.Rat
import Mathlib.Data.List.Dedup

/-!
# Query parameters and page cursors

What the job board and the contractor directory share before either of them asks the
database anything: reading a query parameter, resolving a trade filter and the trades a
free text asks for, and the text of a page cursor.

A cursor is written as three fields – the identifier, the sort key and the last value of
the tie-break – between null characters, in base64. `Marketplace.Search.decodeFields_encodeFields`
says that it is read back as it was written, from what the libraries that write and read
the fields promise (`Marketplace.Search.Env.RoundTrips`).

Finite floating-point numbers are rationals. What geography, full-text search and the
real functions compute is not computed here and comes as a `Marketplace.Search.Env`.
-/

namespace Marketplace.Search

/-- A point on the ground. -/
structure Point where
  lat : ℚ
  lon : ℚ
  deriving DecidableEq

/-! ### What is not computed here -/

/-- **The surroundings of a search**: what the database computes on points and texts, and
how values are written and read. A document is the list of the texts it is made from. -/
structure Env where
  /-- `ST_Distance`, in metres. -/
  distance : Point → Point → ℚ
  /-- Whether a point overlaps the envelope of two corners, `&& ST_MakeEnvelope`. -/
  inEnvelope : Point → Point → Point → Bool
  /-- Whether a document matches a query, `@@ websearch_to_tsquery`. -/
  textMatches : List Text → Text → Bool
  /-- `ts_rank_cd` of a document for a query. -/
  textRank : List Text → Text → ℚ
  /-- `word_similarity`. -/
  wordSimilarity : Text → Text → ℚ
  /-- The sort key of a text in the collation of the database. -/
  collate : Text → Text
  /-- `exp`. -/
  exp : ℚ → ℚ
  /-- `ln`. -/
  ln : ℚ → ℚ
  /-- The cast to `float8`: the nearest double. -/
  toFloat8 : ℚ → ℚ
  /-- `str::to_lowercase`. -/
  toLowercase : Text → Text
  /-- `str::parse::<f64>`, where the outcome is a finite number. -/
  parseFloat : Text → Option ℚ
  /-- `f64::to_string`. -/
  formatFloat : ℚ → Text
  /-- `Uuid::parse_str`. -/
  parseUuid : Text → Option Uuid
  /-- `Uuid::to_string`. -/
  formatUuid : Uuid → Text
  /-- `DateTime::parse_from_rfc3339`. -/
  parseRfc3339 : Text → Option Instant
  /-- `DateTime::to_rfc3339`. -/
  toRfc3339 : Instant → Text
  /-- URL-safe base64 without padding, of the bytes of a text. -/
  base64 : Text → Text
  /-- The text that a URL-safe base64 stands for, if it stands for one. -/
  unbase64 : Text → Option Text

variable (env : Env)

/-- `ST_DWithin`. -/
def dwithin (p q : Point) (radiusM : ℚ) : Bool := env.distance p q ≤ radiusM

/-! ### Numbers -/

/-- `Ord::clamp`. -/
def clamp {α : Type} [Max α] [Min α] (x lo hi : α) : α := max lo (min x hi)

/-- A non-empty run of decimal digits. -/
def parseDigits (s : Text) : Option ℕ :=
  if s.isEmpty || !s.all Char.isDigit then none
  else some (s.foldl (fun n c => 10 * n + (c.toNat - 48)) 0)

/-- `str::parse::<i64>`. -/
def parseI64 (s : Text) : Option ℤ :=
  let n : Option ℤ := match s with
    | '+' :: ds => (parseDigits ds).map fun n => (n : ℤ)
    | '-' :: ds => (parseDigits ds).map fun n => -(n : ℤ)
    | ds => (parseDigits ds).map fun n => (n : ℤ)
  n.filter fun n => -2 ^ 63 ≤ n && n < 2 ^ 63

/-! ### Parameters -/

/-- A parameter, trimmed, if there is anything left of it. -/
def present (raw : Option Text) : Option Text := (raw.map trim).filter fun s => !s.isEmpty

/-- `parse_f64`. -/
def parseF64 (raw : Option Text) : Option ℚ := (present raw).bind env.parseFloat

/-- The ZIP code that a parameter is, if it is one. -/
def isZip (s : Text) : Bool := byteLen s = 5 && s.all Char.isDigit

/-- The longest query text, in characters. -/
def maxQueryChars : ℕ := 200

/-- The query text of a search. -/
def queryText (q : Option Text) : Option Text := (present q).map (List.take maxQueryChars)

/-- The slugs of a comma-separated list. -/
def slugs (list : Text) : List Text :=
  ((list.splitOn ',').map trim).filter fun s => !s.isEmpty

/-! ### Trades -/

/-- The trades and the names people use for them. -/
structure Vocabulary where
  /-- The rows of `trades`: identifier and slug. -/
  trades : List (Uuid × Text)
  /-- The rows of `trade_aliases`: alias and trade. -/
  aliases : List (Text × Uuid)

/-- `ALIAS_SIMILARITY_THRESHOLD`. -/
def aliasSimilarityThreshold : ℚ := 70 / 100

/-- `ALIAS_CONTAINED_THRESHOLD`. -/
def aliasContainedThreshold : ℚ := 90 / 100

variable (vocabulary : Vocabulary)

/-- `trade_ids_for_slugs`. -/
def tradeIdsForSlugs (slugs : List Text) : List Uuid :=
  (vocabulary.trades.filter fun t => t.2 ∈ slugs).map Prod.fst

/-- `trades_matching_text`: the trades a free-text query asks for, in the order in which
the aliases are scanned. -/
def tradesMatchingText (query : Text) : List Uuid :=
  let needle := env.toLowercase (trim query)
  if needle.isEmpty then []
  else
    ((vocabulary.aliases.filter fun a =>
      a.1 = needle || aliasSimilarityThreshold ≤ env.wordSimilarity needle a.1 ||
        aliasContainedThreshold ≤ env.wordSimilarity a.1 needle).map Prod.snd).dedup.take 8

/-- The trades of the query text, if there is one. -/
def queryTrades (query : Option Text) : List Uuid :=
  match query with
  | some query => tradesMatchingText env vocabulary query
  | none => []

/-! ### Cursors -/

/-- What a cursor that cannot be read is answered with. -/
def invalidCursor : AppError := .invalid "that page cursor is not valid"

/-- The text of a cursor: identifier, sort key and one more field. -/
def encodeFields (id : Uuid) (sortKey : Option ℚ) (rest : Text) : Text :=
  env.base64 (env.formatUuid id ++ '\x00' ::
    ((sortKey.map env.formatFloat).getD [] ++ '\x00' :: rest))

/-- The fields of a cursor. -/
def decodeFields (value : Text) : Except AppError (Uuid × Option ℚ × Text) := do
  let some text := env.unbase64 value | throw invalidCursor
  let some (id, rest) := splitOnce '\x00' text | throw invalidCursor
  let some (key, rest) := splitOnce '\x00' rest | throw invalidCursor
  let sortKey ← if key.isEmpty then pure none
    else match env.parseFloat key with
      | some value => pure (some value)
      | none => throw invalidCursor
  let some id := env.parseUuid id | throw invalidCursor
  return (id, sortKey, rest)

/-- **What the libraries promise** about the values they write: they are read back, and
the text of an identifier or of a number is free of null characters. -/
structure Env.RoundTrips : Prop where
  base64 : ∀ s, env.unbase64 (env.base64 s) = some s
  uuid : ∀ id, env.parseUuid (env.formatUuid id) = some id
  uuid_ne_null : ∀ id, '\x00' ∉ env.formatUuid id
  float : ∀ q, env.parseFloat (env.formatFloat q) = some q
  float_ne_nil : ∀ q, env.formatFloat q ≠ []
  float_ne_null : ∀ q, '\x00' ∉ env.formatFloat q
  rfc3339 : ∀ t, env.parseRfc3339 (env.toRfc3339 t) = some t

/-- A text without separators is not split. -/
theorem splitOnce_eq_none {sep : Char} {s : Text} (h : sep ∉ s) : splitOnce sep s = none := by
  induction s with
  | nil => rfl
  | cons c s ih =>
    have hc : c ≠ sep := fun hc => h (hc ▸ List.mem_cons_self)
    have hs : sep ∉ s := fun hs => h (List.mem_cons_of_mem _ hs)
    rw [splitOnce, if_neg hc, ih hs]
    rfl

/-- A text is split at the first separator. -/
theorem splitOnce_append {sep : Char} {s t : Text} (h : sep ∉ s) :
    splitOnce sep (s ++ sep :: t) = some (s, t) := by
  induction s with
  | nil => simp [splitOnce]
  | cons c s ih =>
    have hc : c ≠ sep := fun hc => h (hc ▸ List.mem_cons_self)
    have hs : sep ∉ s := fun hs => h (List.mem_cons_of_mem _ hs)
    rw [List.cons_append, splitOnce, if_neg hc, ih hs]
    rfl

variable {env}

/-- **A cursor is read back as it was written.** -/
theorem decodeFields_encodeFields (h : env.RoundTrips) (id : Uuid) (sortKey : Option ℚ)
    (rest : Text) :
    decodeFields env (encodeFields env id sortKey rest) = .ok (id, sortKey, rest) := by
  have hnull : '\x00' ∉ (sortKey.map env.formatFloat).getD [] := by
    rcases sortKey with _ | q
    · simp
    · exact h.float_ne_null q
  rw [decodeFields, encodeFields, h.base64]
  simp only [splitOnce_append (h.uuid_ne_null id), splitOnce_append hnull]
  rcases sortKey with _ | q
  · simp [h.uuid, pure, Except.pure, bind, Except.bind]
  · have hne : env.formatFloat q ≠ [] := h.float_ne_nil q
    simp [h.uuid, h.float, hne, pure, Except.pure, bind, Except.bind]

/-- A cursor is not the empty text, as base64 of a text that is not empty is not. -/
theorem encodeFields_ne_nil (h : env.RoundTrips) (hempty : env.base64 [] = []) (id : Uuid)
    (sortKey : Option ℚ) (rest : Text) : encodeFields env id sortKey rest ≠ [] := by
  intro hnil
  rw [encodeFields] at hnil
  have hread := h.base64 (env.formatUuid id ++ '\x00' ::
    ((sortKey.map env.formatFloat).getD [] ++ '\x00' :: rest))
  rw [hnil, ← hempty, h.base64] at hread
  simp at hread

/-! ### Surroundings to run examples in -/

/-- A fraction of decimal numerals. -/
def parseRatio (s : Text) : Option ℚ :=
  match splitOnce '/' s with
  | some (n, d) => (parseDigits n).bind fun n => (parseDigits d).map fun d => mkRat n d
  | none => (parseDigits s).map fun n : ℕ => (n : ℚ)

/-- The decimal numerals of a fraction, of its numerator alone when it is whole. -/
def formatRatio (n d : ℕ) : Text :=
  if d = 1 then Nat.toDigits 10 n else Nat.toDigits 10 n ++ '/' :: Nat.toDigits 10 d

/-- Surroundings that leave texts as they are, write numbers in decimal, and match a
document that contains the query. -/
def Env.plain : Env where
  distance := fun p q => max (p.lat - q.lat) (q.lat - p.lat) + max (p.lon - q.lon) (q.lon - p.lon)
  inEnvelope := fun lo hi p => lo.lat ≤ p.lat && p.lat ≤ hi.lat && lo.lon ≤ p.lon && p.lon ≤ hi.lon
  textMatches := fun doc query => doc.any fun s => decide (query <:+: s)
  textRank := fun doc query => doc.countP fun s => decide (query <:+: s)
  wordSimilarity := fun s t => if s = t then 1 else 0
  collate := id
  exp := id
  ln := fun x => x - 1
  toFloat8 := id
  toLowercase := List.map Char.toLower
  parseFloat := fun s =>
    match s with
    | '-' :: s => (parseRatio s).map fun q => -q
    | s => parseRatio s
  formatFloat := fun q =>
    if q.num < 0 then '-' :: formatRatio q.num.natAbs q.den else formatRatio q.num.natAbs q.den
  parseUuid := parseDigits
  formatUuid := Nat.toDigits 10
  parseRfc3339 := parseDigits
  toRfc3339 := Nat.toDigits 10
  base64 := id
  unbase64 := some

theorem parseDigits_toDigits (n : ℕ) : parseDigits (Nat.toDigits 10 n) = some n := by
  have hdigits : (Nat.toDigits 10 n).all Char.isDigit = true := by
    rw [List.all_eq_true]
    exact fun c hc => Nat.isDigit_of_mem_toDigits (by decide) (by decide) hc
  have hvalue := Nat.ofDigitChars_toDigits (b := 10) (n := n) (by decide) (by decide)
  rw [parseDigits, if_neg (by simp [hdigits, Nat.toDigits_ne_nil])]
  exact congrArg some hvalue

theorem not_mem_toDigits {c : Char} (h : c.isDigit = false) (n : ℕ) : c ∉ Nat.toDigits 10 n := by
  intro hc
  rw [Nat.isDigit_of_mem_toDigits (by decide) (by decide) hc] at h
  exact absurd h (by decide)

theorem not_mem_formatRatio {c : Char} (h : c.isDigit = false) (hc : c ≠ '/') (n d : ℕ) :
    c ∉ formatRatio n d := by
  rw [formatRatio]
  split
  · exact not_mem_toDigits h n
  · simp [not_mem_toDigits h, hc]

theorem parseRatio_formatRatio (n d : ℕ) : parseRatio (formatRatio n d) = some (mkRat n d) := by
  rw [formatRatio]
  split
  next h1 =>
    rw [parseRatio, splitOnce_eq_none (not_mem_toDigits (by decide) n), parseDigits_toDigits, h1]
    exact congrArg some (Rat.mkRat_one (n : ℤ)).symm
  next h1 =>
    rw [parseRatio, splitOnce_append (not_mem_toDigits (by decide) n)]
    simp [parseDigits_toDigits]

theorem formatRatio_ne_nil (n d : ℕ) : formatRatio n d ≠ [] := by
  rw [formatRatio]
  split
  · exact Nat.toDigits_ne_nil
  · simp

/-- Without a sign, a number is read as the fraction it is written as. -/
theorem plain_parseFloat {s : Text} (h : '-' ∉ s) : Env.plain.parseFloat s = parseRatio s := by
  rcases s with _ | ⟨c, s⟩
  · rfl
  · have hc : c ≠ '-' := fun hc => h (hc ▸ List.mem_cons_self)
    simp [Env.plain]
    split <;> simp_all

/-- What the plain surroundings write is read back. -/
theorem Env.plain_roundTrips : Env.plain.RoundTrips where
  base64 _ := rfl
  uuid := parseDigits_toDigits
  uuid_ne_null := not_mem_toDigits (by decide)
  float q := by
    have hwrite : Env.plain.formatFloat q =
        if q.num < 0 then '-' :: formatRatio q.num.natAbs q.den
        else formatRatio q.num.natAbs q.den := rfl
    rw [hwrite]
    split
    next hneg =>
      have hread : Env.plain.parseFloat ('-' :: formatRatio q.num.natAbs q.den) =
          (parseRatio (formatRatio q.num.natAbs q.den)).map fun q => -q := rfl
      have habs : ((q.num.natAbs : ℕ) : ℤ) = -q.num := by omega
      rw [hread, parseRatio_formatRatio, habs, Option.map_some, Rat.neg_mkRat, neg_neg,
        Rat.mkRat_self]
    next hpos =>
      have habs : ((q.num.natAbs : ℕ) : ℤ) = q.num := by omega
      rw [plain_parseFloat (not_mem_formatRatio (by decide) (by decide) _ _),
        parseRatio_formatRatio, habs, Rat.mkRat_self]
  float_ne_nil q := by
    change (if q.num < 0 then _ else _) ≠ []
    split
    · simp
    · exact formatRatio_ne_nil _ _
  float_ne_null q := by
    change _ ∉ (if q.num < 0 then _ else _)
    split
    · simp [not_mem_formatRatio]
    · exact not_mem_formatRatio (by decide) (by decide) _ _
  rfc3339 := parseDigits_toDigits

end Marketplace.Search
