import Marketplace.Auth.Text
import Marketplace.Sql.Like
import Marketplace.Sql.Limit
import Mathlib.Algebra.Order.Ring.Rat

/-!
# Suggestions

What a person types may be a kind of work, a place or a business, and what is suggested is of the
three kinds, in this order (`Marketplace.Suggest.Suggests`). What is typed becomes part of a pattern,
so that a percent sign, an underscore or a backslash in it stands for something else; and each kind
has four places in a list of eight, so that trades and places can fill it. Both are a matter of the
rows that are found, and `Marketplace.Suggest.suggests_iff` says of which.
-/

namespace Marketplace.Suggest

/-! ### Tables -/

/-- A row of `trades`. -/
structure Trade where
  id : Uuid
  slug : Text
  name : Text
  sortOrder : ℤ
  active : Bool
  deriving DecidableEq

/-- A row of `trade_aliases`. -/
structure TradeAlias where
  tradeId : Uuid
  aliasText : Text
  deriving DecidableEq

/-- `regions.kind`. -/
inductive RegionKind
  | zcta
  | county
  | city
  | neighborhood
  deriving DecidableEq

/-- A row of `regions`, with the coordinates of its centroid. -/
structure Region where
  id : Uuid
  kind : RegionKind
  code : Text
  name : Text
  parentId : Option Uuid
  lat : ℚ
  lon : ℚ
  contractorCount : ℤ
  deriving DecidableEq

/-- A row of `region_places`. -/
structure RegionPlace where
  regionId : Uuid
  placeId : Uuid
  sharedLandM2 : ℕ
  deriving DecidableEq

/-- A row of `contractors`. -/
structure Contractor where
  slug : Text
  displayName : Text
  ownerAddressCity : Option Text
  licenseRecordId : Option Uuid
  qualityScore : ℚ
  deriving DecidableEq

/-- A row of `license_records`. -/
structure LicenseRecord where
  id : Uuid
  city : Option Text
  deriving DecidableEq

/-- The tables that suggestions are made from. -/
structure Db where
  trades : List Trade := []
  aliases : List TradeAlias := []
  regions : List Region := []
  regionPlaces : List RegionPlace := []
  contractors : List Contractor := []
  licenseRecords : List LicenseRecord := []

/-- **The library and the database**: how each makes letters small, how texts are sorted, and how the
sum of a score is rounded. A text that the library has made small stays as it is in the database. -/
structure Env where
  /-- `str::to_lowercase`. -/
  toLowercase : Text → Text
  /-- `lower`, of one character. -/
  lower : Char → Char
  /-- The order of texts. -/
  collate : Text → Text → Ordering
  /-- The nearest double. -/
  float8 : ℚ → ℚ
  lower_toLowercase : ∀ s, ∀ c ∈ toLowercase s, lower c = c
  lower_percent : lower '%' = '%'
  transCmp_collate : Std.TransCmp collate

attribute [instance] Env.transCmp_collate

/-! ### Suggestions -/

/-- What a suggestion is. -/
inductive Kind
  | trade
  | place
  | contractor
  deriving DecidableEq

/-- A suggestion. -/
structure Suggestion where
  kind : Kind
  label : Text
  value : Text
  hint : Option Text
  lat : Option ℚ
  lon : Option ℚ
  deriving DecidableEq

/-- A row of the union. -/
structure Row where
  kind : String
  label : Text
  value : Text
  hint : Option Text
  lead : ℚ
  lat : Option ℚ
  lon : Option ℚ

/-- The suggestion of a row. -/
def Row.suggestion (row : Row) : Option Suggestion :=
  let of (kind : Kind) : Suggestion := ⟨kind, row.label, row.value, row.hint, row.lat, row.lon⟩
  match row.kind with
  | "trade" => some (of .trade)
  | "place" => some (of .place)
  | "contractor" => some (of .contractor)
  | _ => none

/-- `MAX_SUGGESTIONS`. -/
def maxSuggestions : ℕ := 8

/-- `MAX_PER_KIND`. -/
def maxPerKind : ℕ := 4

/-- `MIN_QUERY`. -/
def minQuery : ℕ := 2

section Query

variable (env : Env) (db : Db) (query : Text)

/-- `lower`, of a text. -/
def lower (s : Text) : Text := s.map env.lower

/-- What is looked for. -/
def needle : Text := env.toLowercase (trim query)

/-- The pattern for what begins with it. -/
def prefixPattern : Text := needle env query ++ ['%']

/-- The pattern for a business, of a needle that is long enough. -/
def businessPattern : Option Text :=
  if 3 ≤ (needle env query).length then some ('%' :: (needle env query ++ ['%'])) else none

/-- Whether a place is looked for by its ZIP code. -/
def byCode : Bool := (needle env query).head?.any Char.isDigit

/-- `s ILIKE pattern`. -/
def ilike (pattern s : Text) : Bool := Sql.like (lower env pattern) (lower env s)

/-- `1.0` where a condition holds. -/
def lead (ok : Bool) : ℚ := if ok then 1 else 0

/-! ### The branches of the union -/

/-- The trades that are found, by their name or by an alias. -/
def findsTrade (t : Trade) : Bool :=
  t.active && (Sql.like (prefixPattern env query) (lower env t.name) ||
    db.aliases.any fun a => a.tradeId = t.id && Sql.like (prefixPattern env query) a.aliasText)

/-- `lead DESC, t.sort_order`. -/
def tradeOrder : Trade → Trade → Ordering :=
  compareLex (Sql.desc fun t => lead (Sql.like (prefixPattern env query) (lower env t.name)))
    (Sql.asc Trade.sortOrder)

/-- The ZIP codes that are found. -/
def findsCode (r : Region) : Bool :=
  byCode env query && r.kind = .zcta && Sql.like (prefixPattern env query) r.code

/-- `5 DESC, r.contractor_count DESC, r.code`. -/
def codeOrder : Region → Region → Ordering :=
  compareLex (Sql.desc fun r => lead (Sql.like (prefixPattern env query) r.code))
    (compareLex (Sql.desc Region.contractorCount) fun r r' => env.collate r.code r'.code)

/-- The cities that are found, and the ZIP codes that have a name. -/
def findsPlace (r : Region) : Bool :=
  !byCode env query && Sql.like (prefixPattern env query) (lower env r.name) &&
    (r.kind = .city || r.kind = .zcta && r.name ≠ r.code)

/-- `5 DESC, r.contractor_count DESC, r.name`. -/
def placeOrder : Region → Region → Ordering :=
  compareLex (Sql.desc fun r => lead (Sql.like (prefixPattern env query) (lower env r.name)))
    (compareLex (Sql.desc Region.contractorCount) fun r r' => env.collate r.name r'.name)

/-- The businesses that are found. Without a pattern there are none. -/
def findsContractor (c : Contractor) : Bool :=
  (businessPattern env query).any fun pattern => ilike env pattern c.displayName

/-- What decides the order of businesses: a name that begins with the needle, and then quality. -/
def contractorLead (c : Contractor) : ℚ :=
  env.float8 (lead (ilike env (prefixPattern env query) c.displayName) + c.qualityScore)

/-- `5 DESC, c.display_name`. -/
def contractorOrder : Contractor → Contractor → Ordering :=
  compareLex (Sql.desc (contractorLead env query))
    fun c c' => env.collate c.displayName c'.displayName

/-- The rows that each branch finds. -/
def foundTrades : List Trade := db.trades.filter (findsTrade env db query)

def foundCodes : List Region := db.regions.filter (findsCode env query)

def foundPlaces : List Region := db.regions.filter (findsPlace env query)

def foundContractors : List Contractor := db.contractors.filter (findsContractor env query)

/-- What a row of the union comes from. -/
inductive Source
  | trade (t : Trade)
  | code (r : Region)
  | place (r : Region)
  | contractor (c : Contractor)
  deriving DecidableEq

/-- The places that a region is in, and the land they share. -/
def placesOf (r : Region) : List (RegionPlace × Region) :=
  (db.regionPlaces.filter fun rp => rp.regionId = r.id).flatMap fun rp =>
    (db.regions.filter fun p => p.id = rp.placeId).map fun p => (rp, p)

/-- `ORDER BY rp.shared_land_m2 DESC LIMIT 1`, of some places: the name of the one that is found. -/
def Largest (places : List (RegionPlace × Region)) (name : Option Text) : Prop :=
  ∃ out, Sql.Answers (Sql.desc fun x : RegionPlace × Region => x.1.sharedLandM2) 1 places out ∧
    name = out.head?.map fun x => x.2.name

/-- The lateral join of a branch: the place that a region is mostly in. -/
def Source.Hood : Source → Option Text → Prop
  | code r, hood => Largest (placesOf db r) hood
  | place r, hood => Largest (if r.kind = .zcta then placesOf db r else []) hood
  | trade _, hood | contractor _, hood => hood = none

/-- `NULLIF(btrim(COALESCE(c.owner_address_city, l.city, '')), '')`. -/
def cityHint (c : Contractor) : Option Text :=
  let license := c.licenseRecordId.bind fun id => db.licenseRecords.find? fun l => l.id = id
  let city := (c.ownerAddressCity.or (license.bind LicenseRecord.city)).getD []
  let trimmed := ((city.dropWhile (· = ' ')).reverse.dropWhile (· = ' ')).reverse
  if trimmed = [] then none else some trimmed

/-- The row of the union. -/
def Source.row (hood : Option Text) : Source → Row
  | trade t =>
    { kind := "trade", label := t.name, value := t.slug, hint := none
      lead := lead (Sql.like (prefixPattern env query) (lower env t.name)), lat := none, lon := none }
  | code r =>
    { kind := "place", label := r.code, value := r.code, hint := hood
      lead := lead (Sql.like (prefixPattern env query) r.code), lat := some r.lat, lon := some r.lon }
  | place r =>
    let parent := r.parentId.bind fun id => db.regions.find? fun p => p.id = id
    { kind := "place", label := r.name, value := r.code, hint := (parent.map Region.name).or hood
      lead := lead (Sql.like (prefixPattern env query) (lower env r.name))
      lat := some r.lat, lon := some r.lon }
  | contractor c =>
    { kind := "contractor", label := c.displayName, value := c.slug, hint := cityHint db c
      lead := contractorLead env query c, lat := none, lon := none }

/-! ### The union -/

/-- `UNION ALL`: the rows of the branches, one branch after the other. -/
def unionAll (trades : List Trade) (codes places : List Region) (contractors : List Contractor) :
    List Source :=
  trades.map .trade ++ codes.map .code ++ places.map .place ++ contractors.map .contractor

/-- What the union is of: the first rows of each branch. -/
def Union (sources : List Source) : Prop :=
  ∃ trades codes places contractors,
    Sql.Answers (tradeOrder env query) maxPerKind (foundTrades env db query) trades ∧
      Sql.Answers (codeOrder env query) maxPerKind (foundCodes env db query) codes ∧
      Sql.Answers (placeOrder env query) maxPerKind (foundPlaces env db query) places ∧
      Sql.Answers (contractorOrder env query) maxPerKind (foundContractors env db query)
        contractors ∧
      sources = unionAll trades codes places contractors

/-- **`suggest`**: what it may return, each suggestion with what it comes from. -/
def Suggests (answer : List (Source × Suggestion)) : Prop :=
  if (needle env query).length < minQuery then answer = []
  else
    ∃ sources rows, Union env db query sources ∧
      List.Forall₂ (fun source row => ∃ hood, source.Hood db hood ∧
        row = (source, source.row env db query hood)) sources rows ∧
      answer = (rows.filterMap fun x => x.2.suggestion.map fun s => (x.1, s)).take maxSuggestions

/-! ### What is expected -/

/-- The name, the code or an alias has the needle in it, as it is. -/
def Source.Contains : Source → Prop
  | trade t => needle env query <:+: lower env t.name ∨
      ∃ a ∈ db.aliases, a.tradeId = t.id ∧ needle env query <:+: a.aliasText
  | code r | place r => needle env query <:+: lower env r.name ∨ needle env query <:+: r.code
  | contractor c => needle env query <:+: lower env c.displayName

/-- **Suggestions are literal**: what is suggested has the needle in it. -/
def Literal (answer : List (Source × Suggestion)) : Prop :=
  ∀ x ∈ answer, x.1.Contains env db query

/-- Something is found of a kind. -/
def Found : Kind → Prop
  | .trade => foundTrades env db query ≠ []
  | .place => foundCodes env db query ≠ [] ∨ foundPlaces env db query ≠ []
  | .contractor => foundContractors env db query ≠ []

/-- **Suggestions are fair**: where something is found of every kind, every kind is suggested. -/
def Fair (answer : List (Source × Suggestion)) : Prop :=
  (∀ kind, Found env db query kind) → ∀ kind, ∃ x ∈ answer, x.2.kind = kind

/-- The rows of a branch that are found, and how many come before one of them. -/
def rank {α : Type} (order : α → α → Ordering) (rows : List α) (a : α) : ℕ :=
  rows.countP fun b => order b a = .lt

/-- How many rows a branch has in the union. -/
def branchSize {α : Type} (rows : List α) : ℕ := min maxPerKind rows.length

/-- How much room trades and places leave. -/
def room : ℕ :=
  maxSuggestions - (branchSize (foundTrades env db query) +
    branchSize (foundCodes env db query) +
    branchSize (foundPlaces env db query))

/-- **What is found through a wildcard is outranked**: a row in which the needle is not has at least
as many before it as its kind can show. -/
structure Outranked : Prop where
  trades : ∀ t ∈ foundTrades env db query, ¬ (Source.trade t).Contains env db query →
    maxPerKind ≤ rank (tradeOrder env query) (foundTrades env db query) t
  codes : ∀ r ∈ foundCodes env db query, ¬ (Source.code r).Contains env db query →
    maxPerKind ≤ rank (codeOrder env query) (foundCodes env db query) r
  places : ∀ r ∈ foundPlaces env db query, ¬ (Source.place r).Contains env db query →
    maxPerKind ≤ rank (placeOrder env query) (foundPlaces env db query) r
  contractors : ∀ c ∈ foundContractors env db query,
    ¬ (Source.contractor c).Contains env db query → min (room env db query) maxPerKind ≤
      rank (contractorOrder env query) (foundContractors env db query) c

/-- **There is room for a business**: where one is found, trades and places do not both fill their
part of the list. -/
def Unfilled : Prop :=
  foundContractors env db query ≠ [] →
    (foundTrades env db query).length < maxPerKind ∨
      (foundCodes env db query).length < maxPerKind ∧
        (foundPlaces env db query).length < maxPerKind

end Query

variable {env : Env} {db : Db} {query : Text} {sources : List Source}
  {answer : List (Source × Suggestion)}

/-! ### The orders -/

instance transCmp_collateOf {α : Type} (env : Env) (f : α → Text) :
    Std.TransCmp fun a b => env.collate (f a) (f b) where
  eq_swap {_ _} := Std.OrientedCmp.eq_swap
  isLE_trans {_ _ _} hab hbc := Std.TransCmp.isLE_trans hab hbc

instance transCmp_tradeOrder (env : Env) (query : Text) : Std.TransCmp (tradeOrder env query) :=
  inferInstanceAs (Std.TransCmp (compareLex _ _))

instance transCmp_codeOrder (env : Env) (query : Text) : Std.TransCmp (codeOrder env query) :=
  inferInstanceAs (Std.TransCmp (compareLex _ (compareLex _ _)))

instance transCmp_placeOrder (env : Env) (query : Text) : Std.TransCmp (placeOrder env query) :=
  inferInstanceAs (Std.TransCmp (compareLex _ (compareLex _ _)))

instance transCmp_contractorOrder (env : Env) (query : Text) :
    Std.TransCmp (contractorOrder env query) :=
  inferInstanceAs (Std.TransCmp (compareLex _ _))

/-! ### Rows and suggestions -/

/-- The kind of what a suggestion comes from. -/
def Source.kind : Source → Kind
  | trade _ => .trade
  | code _ | place _ => .place
  | contractor _ => .contractor

variable (env db query) in
/-- **Every row of the union is a suggestion**, of the kind of what it comes from. -/
theorem suggestion_row (hood : Option Text) (source : Source) :
    ∃ s, (source.row env db query hood).suggestion = some s ∧ s.kind = source.kind := by
  cases source with
  | trade t => exact ⟨_, rfl, rfl⟩
  | code r => exact ⟨_, rfl, rfl⟩
  | place r => exact ⟨_, rfl, rfl⟩
  | contractor c => exact ⟨_, rfl, rfl⟩

/-- There is a place that a region is mostly in, or none. -/
theorem exists_hood (db : Db) (source : Source) : ∃ hood, source.Hood db hood := by
  cases source with
  | trade t | contractor c => exact ⟨none, rfl⟩
  | code r | place r => exact ⟨_, _, Sql.answers_orderBy _, rfl⟩

/-- What is suggested comes from the rows of the union, in their order. -/
theorem map_suggestions {rows : List (Source × Row)}
    (h : List.Forall₂ (fun source row => ∃ hood, source.Hood db hood ∧
      row = (source, source.row env db query hood)) sources rows) :
    (rows.filterMap fun x => x.2.suggestion.map fun s => (x.1, s)).map
      (fun x => (x.1, x.2.kind)) = sources.map fun source => (source, source.kind) := by
  induction h with
  | nil => rfl
  | cons hrow hrows ih =>
    obtain ⟨hood, -, rfl⟩ := hrow
    obtain ⟨s, hs, hkind⟩ := suggestion_row env db query hood _
    rw [List.filterMap_cons_some (by rw [hs]; rfl), List.map_cons, List.map_cons, ih]
    exact congrArg₂ _ (congrArg _ hkind) rfl

/-- **What may be suggested**: the beginning of a union. -/
theorem exists_suggests_iff (hlong : ¬ (needle env query).length < minQuery)
    {P : List (Source × Kind) → Prop} :
    (∀ answer, Suggests env db query answer → P (answer.map fun x => (x.1, x.2.kind))) ↔
      ∀ sources, Union env db query sources →
        P ((sources.take maxSuggestions).map fun source => (source, source.kind)) := by
  constructor
  · intro h sources hunion
    choose hood hhood using exists_hood db
    let rows := sources.map fun source => (source, source.row env db query (hood source))
    have hrows : List.Forall₂ (fun source row => ∃ hood, source.Hood db hood ∧
        row = (source, source.row env db query hood)) sources rows :=
      List.forall₂_map_right_iff.mpr (List.forall₂_same.mpr fun source _ =>
        ⟨hood source, hhood source, rfl⟩)
    have hanswer := h ((rows.filterMap fun x => x.2.suggestion.map fun s => (x.1, s)).take
      maxSuggestions) (by
        rw [Suggests, if_neg hlong]
        exact ⟨sources, rows, hunion, hrows, rfl⟩)
    rwa [List.map_take, map_suggestions hrows, ← List.map_take] at hanswer
  · intro h answer hanswer
    rw [Suggests, if_neg hlong] at hanswer
    obtain ⟨sources, rows, hunion, hrows, rfl⟩ := hanswer
    rw [List.map_take, map_suggestions hrows, ← List.map_take]
    exact h sources hunion

/-! ### The beginning of the union -/

/-- ZIP codes and names are not looked for at once. -/
theorem places_or_codes (env : Env) (db : Db) (query : Text) :
    foundCodes env db query = [] ∨ foundPlaces env db query = [] := by
  rcases hcode : byCode env query with _ | _
  · exact .inl (List.filter_eq_nil_iff.mpr fun r _ => by simp [findsCode, hcode])
  · exact .inr (List.filter_eq_nil_iff.mpr fun r _ => by simp [findsPlace, hcode])

/-- What is in the list: everything of the trades and places, and the businesses there is room
for. -/
theorem take_unionAll {trades : List Trade} {codes places : List Region}
    {contractors : List Contractor}
    (htrades : trades.length = branchSize (foundTrades env db query))
    (hcodes : codes.length = branchSize (foundCodes env db query))
    (hplaces : places.length = branchSize (foundPlaces env db query)) :
    (unionAll trades codes places contractors).take maxSuggestions =
      unionAll trades codes places (contractors.take (room env db query)) := by
  let front : List Source := trades.map .trade ++ codes.map .code ++ places.map .place
  have hlength : front.length = branchSize (foundTrades env db query) +
      branchSize (foundCodes env db query) +
      branchSize (foundPlaces env db query) := by
    rw [List.length_append, List.length_append, List.length_map, List.length_map, List.length_map,
      htrades, hcodes, hplaces]
  have hle : front.length ≤ maxSuggestions := by
    rw [hlength]
    rcases places_or_codes env db query with hnone | hnone
    · rw [hnone]
      simp only [branchSize, maxPerKind, maxSuggestions, List.length_nil]
      omega
    · rw [hnone]
      simp only [branchSize, maxPerKind, maxSuggestions, List.length_nil]
      omega
  change (front ++ contractors.map Source.contractor).take maxSuggestions =
    front ++ (contractors.take (room env db query)).map Source.contractor
  rw [List.take_append, List.take_of_length_le hle, hlength, room, List.map_take]

/-- There is room for a business unless trades and places both fill their part of the list. -/
theorem room_pos_iff (env : Env) (db : Db) (query : Text) : 0 < room env db query ↔
    (foundTrades env db query).length < maxPerKind ∨
      (foundCodes env db query).length < maxPerKind ∧
        (foundPlaces env db query).length < maxPerKind := by
  rcases places_or_codes env db query with hnone | hnone
  · simp only [room, branchSize, maxPerKind, maxSuggestions, hnone, List.length_nil]
    omega
  · simp only [room, branchSize, maxPerKind, maxSuggestions, hnone, List.length_nil]
    omega

/-! ### What is suggested -/

/-- What is in the list, branch by branch. -/
theorem mem_unionAll {trades : List Trade} {codes places : List Region}
    {contractors : List Contractor} {source : Source} :
    source ∈ unionAll trades codes places contractors ↔ (∃ t ∈ trades, .trade t = source) ∨
      (∃ r ∈ codes, .code r = source) ∨ (∃ r ∈ places, .place r = source) ∨
      ∃ c ∈ contractors, .contractor c = source := by
  simp only [unionAll, List.mem_append, List.mem_map, or_assoc]

/-- A branch shows something if it finds something. -/
theorem exists_mem_of_answers {α : Type} {order : α → α → Ordering} {n : ℕ} {rows out : List α}
    (h : Sql.Answers order n rows out) (hn : 0 < n) (hrows : rows ≠ []) : ∃ a, a ∈ out := by
  have hlength := h.length
  have hpos := List.length_pos_iff.mpr hrows
  exact List.exists_mem_of_length_pos (by omega)

/-- **What may be suggested**: the rows of the branches, of the businesses those there is room for. -/
theorem forall_suggests_iff (hlong : ¬ (needle env query).length < minQuery)
    {P : List (Source × Kind) → Prop} :
    (∀ answer, Suggests env db query answer → P (answer.map fun x => (x.1, x.2.kind))) ↔
      ∀ trades codes places contractors,
        Sql.Answers (tradeOrder env query) maxPerKind (foundTrades env db query) trades →
        Sql.Answers (codeOrder env query) maxPerKind (foundCodes env db query) codes →
        Sql.Answers (placeOrder env query) maxPerKind (foundPlaces env db query) places →
        Sql.Answers (contractorOrder env query) (min (room env db query) maxPerKind)
          (foundContractors env db query) contractors →
        P ((unionAll trades codes places contractors).map fun source => (source, source.kind)) := by
  rw [exists_suggests_iff hlong]
  constructor
  · intro h trades codes places contractors htrades hcodes hplaces hcontractors
    obtain ⟨more, hmore, rfl⟩ := hcontractors.exists_take
    have hunion := h _ ⟨trades, codes, places, more, htrades, hcodes, hplaces, hmore, rfl⟩
    rwa [take_unionAll htrades.length hcodes.length hplaces.length] at hunion
  · rintro h _ ⟨trades, codes, places, contractors, htrades, hcodes, hplaces, hcontractors, rfl⟩
    rw [take_unionAll htrades.length hcodes.length hplaces.length]
    exact h trades codes places _ htrades hcodes hplaces (hcontractors.take _)

/-- **When suggestions are literal.** -/
theorem literal_iff (hlong : ¬ (needle env query).length < minQuery) :
    (∀ answer, Suggests env db query answer → Literal env db query answer) ↔
      Outranked env db query := by
  have hlist : ∀ answer : List (Source × Suggestion), Literal env db query answer ↔
      ∀ x ∈ answer.map fun x => (x.1, x.2.kind), x.1.Contains env db query := fun answer => by
    rw [List.forall_mem_map, Literal]
  simp only [hlist]
  rw [forall_suggests_iff hlong (P := fun l => ∀ x ∈ l, x.1.Contains env db query)]
  simp only [List.forall_mem_map]
  -- An answer of each branch, for where only one of them matters.
  have htrades := Sql.answers_orderBy (foundTrades env db query) (c := tradeOrder env query)
    (n := maxPerKind)
  have hcodes := Sql.answers_orderBy (foundCodes env db query) (c := codeOrder env query)
    (n := maxPerKind)
  have hplaces := Sql.answers_orderBy (foundPlaces env db query) (c := placeOrder env query)
    (n := maxPerKind)
  have hcontractors := Sql.answers_orderBy (foundContractors env db query)
    (c := contractorOrder env query) (n := min (room env db query) maxPerKind)
  constructor
  · intro h
    refine ⟨fun t ht hnot => ?_, fun r hr hnot => ?_, fun r hr hnot => ?_, fun c hc hnot => ?_⟩
    · by_contra hrank
      obtain ⟨out, hout, hmem⟩ := Sql.exists_answers_mem_iff.mpr ⟨ht, not_le.mp hrank⟩
      exact hnot (h _ _ _ _ hout hcodes hplaces hcontractors _
        (mem_unionAll.mpr (.inl ⟨t, hmem, rfl⟩)))
    · by_contra hrank
      obtain ⟨out, hout, hmem⟩ := Sql.exists_answers_mem_iff.mpr ⟨hr, not_le.mp hrank⟩
      exact hnot (h _ _ _ _ htrades hout hplaces hcontractors _
        (mem_unionAll.mpr (.inr (.inl ⟨r, hmem, rfl⟩))))
    · by_contra hrank
      obtain ⟨out, hout, hmem⟩ := Sql.exists_answers_mem_iff.mpr ⟨hr, not_le.mp hrank⟩
      exact hnot (h _ _ _ _ htrades hcodes hout hcontractors _
        (mem_unionAll.mpr (.inr (.inr (.inl ⟨r, hmem, rfl⟩)))))
    · by_contra hrank
      obtain ⟨out, hout, hmem⟩ := Sql.exists_answers_mem_iff.mpr ⟨hc, not_le.mp hrank⟩
      exact hnot (h _ _ _ _ htrades hcodes hplaces hout _
        (mem_unionAll.mpr (.inr (.inr (.inr ⟨c, hmem, rfl⟩)))))
  · intro h trades codes places contractors htrades hcodes hplaces hcontractors source hsource
    by_contra hnot
    rcases mem_unionAll.mp hsource with ⟨t, ht, rfl⟩ | ⟨r, hr, rfl⟩ | ⟨r, hr, rfl⟩ | ⟨c, hc, rfl⟩
    · exact absurd (htrades.countP_lt ht) (not_lt.mpr (h.trades t (htrades.mem ht) hnot))
    · exact absurd (hcodes.countP_lt hr) (not_lt.mpr (h.codes r (hcodes.mem hr) hnot))
    · exact absurd (hplaces.countP_lt hr) (not_lt.mpr (h.places r (hplaces.mem hr) hnot))
    · exact absurd (hcontractors.countP_lt hc)
        (not_lt.mpr (h.contractors c (hcontractors.mem hc) hnot))

/-- Where trades and places fill the list, they are found. -/
theorem found_of_not_unfilled (h : ¬ Unfilled env db query) (kind : Kind) :
    Found env db query kind := by
  simp only [Unfilled, maxPerKind, Classical.not_imp, not_or, not_and, not_lt] at h
  obtain ⟨hcontractors, htrades, hregions⟩ := h
  cases kind with
  | trade => exact List.length_pos_iff.mp (by omega)
  | place =>
    by_cases hcodes : foundCodes env db query = []
    · refine .inr (List.length_pos_iff.mp ?_)
      have := hregions (by rw [hcodes]; decide)
      omega
    · exact .inl hcodes
  | contractor => exact hcontractors

/-- **When suggestions are fair.** -/
theorem fair_iff (hlong : ¬ (needle env query).length < minQuery) :
    (∀ answer, Suggests env db query answer → Fair env db query answer) ↔
      Unfilled env db query := by
  have hlist : ∀ answer : List (Source × Suggestion), Fair env db query answer ↔
      ((∀ kind, Found env db query kind) →
        ∀ kind, ∃ x ∈ answer.map fun x => (x.1, x.2.kind), x.2 = kind) := fun answer => by
    simp only [List.mem_map, exists_exists_and_eq_and, Fair]
  simp only [hlist]
  rw [forall_suggests_iff hlong (P := fun l => (∀ kind, Found env db query kind) →
    ∀ kind, ∃ x ∈ l, x.2 = kind)]
  simp only [List.mem_map, exists_exists_and_eq_and]
  constructor
  · intro h
    by_contra hfull
    have hroom : room env db query = 0 := Nat.eq_zero_of_not_pos fun hpos =>
      hfull fun _ => (room_pos_iff env db query).mp hpos
    obtain ⟨source, hsource, hkind⟩ := h _ _ _ _ (Sql.answers_orderBy _) (Sql.answers_orderBy _)
      (Sql.answers_orderBy _) (Sql.answers_orderBy _) (found_of_not_unfilled hfull) .contractor
    rcases mem_unionAll.mp hsource with ⟨t, -, rfl⟩ | ⟨r, -, rfl⟩ | ⟨r, -, rfl⟩ | ⟨c, hc, rfl⟩
    · exact nomatch hkind
    · exact nomatch hkind
    · exact nomatch hkind
    · rw [hroom, Nat.zero_min, List.take_zero] at hc
      exact absurd hc List.not_mem_nil
  · intro h trades codes places contractors htrades hcodes hplaces hcontractors hfound kind
    have hroom := (room_pos_iff env db query).mpr (h (hfound .contractor))
    have hfour : 0 < maxPerKind := by decide
    cases kind with
    | trade =>
      obtain ⟨t, ht⟩ := exists_mem_of_answers htrades hfour (hfound .trade)
      exact ⟨.trade t, mem_unionAll.mpr (.inl ⟨t, ht, rfl⟩), rfl⟩
    | place =>
      rcases hfound .place with hsome | hsome
      · obtain ⟨r, hr⟩ := exists_mem_of_answers hcodes hfour hsome
        exact ⟨.code r, mem_unionAll.mpr (.inr (.inl ⟨r, hr, rfl⟩)), rfl⟩
      · obtain ⟨r, hr⟩ := exists_mem_of_answers hplaces hfour hsome
        exact ⟨.place r, mem_unionAll.mpr (.inr (.inr (.inl ⟨r, hr, rfl⟩))), rfl⟩
    | contractor =>
      obtain ⟨c, hc⟩ := exists_mem_of_answers hcontractors (lt_min hroom hfour)
        (hfound .contractor)
      exact ⟨.contractor c, mem_unionAll.mpr (.inr (.inr (.inr ⟨c, hc, rfl⟩))), rfl⟩

/-- A needle that is too short finds no business, and nothing is suggested. -/
theorem of_short (hshort : (needle env query).length < minQuery)
    (hanswer : Suggests env db query answer) :
    Literal env db query answer ∧ Fair env db query answer := by
  rw [Suggests, if_pos hshort] at hanswer
  subst hanswer
  have hpattern : businessPattern env query = none := if_neg (by
    rw [minQuery] at hshort
    omega)
  exact ⟨fun _ hx => absurd hx List.not_mem_nil, fun hfound => absurd
    (List.filter_eq_nil_iff.mpr fun c _ => by simp [findsContractor, hpattern])
    (hfound .contractor)⟩

/-- **When suggestions are literal and fair**: what is found through a wildcard is outranked, and
there is room for a business. -/
theorem suggests_iff (env : Env) (db : Db) (query : Text) :
    (∀ answer, Suggests env db query answer → Literal env db query answer ∧ Fair env db query answer) ↔
      (needle env query).length < minQuery ∨ Outranked env db query ∧ Unfilled env db query := by
  by_cases hshort : (needle env query).length < minQuery
  · exact iff_of_true (fun answer => of_short hshort) (.inl hshort)
  · rw [or_iff_right hshort, ← literal_iff hshort, ← fair_iff hshort]
    simp only [imp_and, forall_and]

/-! ### Needles that stand for themselves -/

/-- The pattern for a business has no capital letters. -/
theorem lower_pattern (env : Env) (query : Text) :
    lower env ('%' :: (needle env query ++ ['%'])) = '%' :: (needle env query ++ ['%']) := by
  have hneedle : lower env (needle env query) = needle env query :=
    (List.map_congr_left (env.lower_toLowercase (trim query))).trans (List.map_id _)
  rw [lower, List.map_cons, List.map_append, env.lower_percent]
  exact congrArg _ (congrArg₂ _ hneedle (by rw [List.map_singleton, env.lower_percent]))

variable (env db) in
/-- **What is found of a needle that stands for itself has it**, so that nothing has to be
outranked. -/
theorem outranked_of_isPlain (h : Sql.IsPlain (needle env query)) : Outranked env db query := by
  refine ⟨fun t ht hnot => absurd ?_ hnot, fun r hr hnot => absurd ?_ hnot,
    fun r hr hnot => absurd ?_ hnot, fun c hc hnot => absurd ?_ hnot⟩
  · have hfinds := (List.mem_filter.mp ht).2
    rw [findsTrade, Bool.and_eq_true, Bool.or_eq_true, List.any_eq_true] at hfinds
    rcases hfinds.2 with hname | ⟨a, ha, halias⟩
    · exact .inl ((Sql.like_prefix_iff h).mp hname).isInfix
    · rw [Bool.and_eq_true, decide_eq_true_eq] at halias
      exact .inr ⟨a, ha, halias.1, ((Sql.like_prefix_iff h).mp halias.2).isInfix⟩
  · have hfinds := (List.mem_filter.mp hr).2
    rw [findsCode, Bool.and_eq_true] at hfinds
    exact .inr ((Sql.like_prefix_iff h).mp hfinds.2).isInfix
  · have hfinds := (List.mem_filter.mp hr).2
    rw [findsPlace, Bool.and_eq_true, Bool.and_eq_true] at hfinds
    exact .inl ((Sql.like_prefix_iff h).mp hfinds.1.2).isInfix
  · have hfinds := (List.mem_filter.mp hc).2
    rw [findsContractor, businessPattern] at hfinds
    split at hfinds
    · rw [Option.any_some, ilike, lower_pattern] at hfinds
      exact (Sql.like_infix_iff h).mp hfinds
    · exact absurd hfinds Bool.false_ne_true

/-- **The needles for which suggestions are always literal** are those that stand for themselves. -/
theorem isPlain_iff (hlong : ¬ (needle env query).length < minQuery) :
    (∀ db answer, Suggests env db query answer → Literal env db query answer) ↔
      Sql.IsPlain (needle env query) := by
  constructor
  · intro h
    by_contra hwild
    obtain ⟨s, hs, hnot⟩ := Sql.exists_like_not_infix hwild
    -- A trade whose only alias is a text that is matched through the wildcard.
    let t : Trade := ⟨1, [], [], 0, true⟩
    let db : Db := { trades := [t], aliases := [⟨1, s⟩] }
    have hfinds : findsTrade env db query t = true := by
      rw [findsTrade, Bool.and_eq_true, Bool.or_eq_true, List.any_eq_true]
      exact ⟨rfl, .inr ⟨⟨1, s⟩, List.mem_singleton_self _, by simpa [t, prefixPattern] using hs⟩⟩
    have hcontains : ¬ (Source.trade t).Contains env db query := by
      rintro (hname | ⟨a, ha, -, halias⟩)
      · have hnil : needle env query = [] := List.infix_nil.mp hname
        rw [hnil] at hlong
        exact hlong (by decide)
      · obtain rfl := List.mem_singleton.mp ha
        exact hnot halias
    have hrank := ((literal_iff hlong).mp (h db)).trades t
      (List.mem_filter.mpr ⟨List.mem_singleton_self t, hfinds⟩) hcontains
    have hle := List.countP_le_length (l := foundTrades env db query)
      (p := fun b => decide (tradeOrder env query b t = .lt))
    have hone : (foundTrades env db query).length ≤ 1 := List.length_filter_le _ _
    rw [rank, maxPerKind] at hrank
    omega
  · exact fun h db => (literal_iff hlong).mpr (outranked_of_isPlain env db h)

/-! ### A list that is full -/

/-- A library and a database for texts without capital letters. -/
def Env.plain : Env where
  toLowercase := id
  lower := id
  collate _ _ := .eq
  float8 := id
  lower_toLowercase _ _ _ := rfl
  lower_percent := rfl
  transCmp_collate := { eq_swap := rfl, isLE_trans := fun _ _ => rfl }

/-- Four trades, four cities and a business, which all begin alike. -/
def crowded : Db where
  trades := (List.range 4).map fun i => ⟨i, [], "solar".toList, i, true⟩
  regions := (List.range 4).map fun i => ⟨i, .city, [], "solana".toList, none, 0, 0, i⟩
  contractors := [⟨"sol-electric".toList, "sol electric".toList, none, none, 0⟩]

/-- A percent sign finds what does not have it, and a list that is full has no business in it. -/
theorem not_suggests :
    (¬ ∀ answer, Suggests Env.plain crowded "s%".toList answer →
      Literal Env.plain crowded "s%".toList answer) ∧
    ¬ ∀ answer, Suggests Env.plain crowded "sol".toList answer →
      Fair Env.plain crowded "sol".toList answer := by
  constructor
  · rw [literal_iff (by decide +kernel)]
    intro h
    let t : Trade := ⟨0, [], "solar".toList, 0, true⟩
    have hcontains : ¬ (Source.trade t).Contains Env.plain crowded "s%".toList := by
      rintro (hname | ⟨a, ha, -⟩)
      · exact absurd hname (by decide +kernel)
      · exact absurd ha List.not_mem_nil
    have hrank := h.trades t (by decide +kernel) hcontains
    exact absurd hrank (by decide +kernel)
  · rw [fair_iff (by decide +kernel)]
    intro h
    exact absurd (h (by decide +kernel)) (by decide +kernel)

end Marketplace.Suggest
