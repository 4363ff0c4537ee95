import Marketplace.Enrichment.Names
import Marketplace.Enrichment.Scoring

/-!
# What an address says

The first component of an address that looks like a state, alone or with a ZIP code, is taken for
the state, and the component before it for the city (`Marketplace.Enrichment.parseAddress`).

An address ends with the city and with the state and the ZIP code, and may have other components
before them (`Marketplace.Enrichment.StreetAddress`). It is read right exactly if none of these, and
not the city either, looks like another state (`Marketplace.Enrichment.readRight_iff`).
-/

namespace Marketplace.Enrichment

/-! ### Reading an address -/

section Parse

variable (u : Unicode)

/-- `\d{n}`, at the front of a text. -/
def startsWithDigits (n : ℕ) (s : Text) : Bool := (s.take n).length = n && (s.take n).all u.isDecimal

/-- `(?:-\d{4})?$`. -/
def isPlusFour : Text → Bool
  | [] => true
  | c :: s => c = '-' && s.length = 4 && startsWithDigits u 4 s

/-- `\s+(\d{5})(?:-\d{4})?$`: the digits. -/
def zipBehind (s : Text) : Option Text :=
  let digits := s.dropWhile isSpace
  if (s.head?.any isSpace) && startsWithDigits u 5 digits && isPlusFour u (digits.drop 5) then
    some (digits.take 5)
  else none

/-- `_STATE_ZIP`, in a component without blanks at its ends: the state, and the ZIP code if there is
one. -/
def stateZip : Text → Option (Text × Option Text)
  | a :: b :: rest =>
    if a.isUpper && b.isUpper then
      if rest.isEmpty then some ([a, b], none)
      else (zipBehind u rest).map fun zip => ([a, b], some zip)
    else none
  | _ => none

/-- The loop over the components; the last one is the city, if this one is the state. -/
def parseParts (last : Option Text) : List Text → Option ParsedAddress
  | [] => none
  | part :: rest =>
    match stateZip u part with
    | some parsed => some ⟨last, some parsed.1, parsed.2⟩
    | none => parseParts (some part) rest

/-- `\s*(?:,\s*USA)?\s*$`. -/
def endsAddress (s : Text) : Bool :=
  match s.dropWhile isSpace with
  | [] => true
  | c :: rest =>
    c = ',' && ((rest.dropWhile isSpace).take 3 = "USA".toList &&
      ((rest.dropWhile isSpace).drop 3).all isSpace)

/-- `\b([A-Z]{2})\b\s*(\d{5})?\s*(?:,\s*USA)?\s*$`, from a position on, behind a character. -/
def tailAt (before : Option Char) : Text → Option (Text × Option Text)
  | a :: b :: rest =>
    let digits := rest.dropWhile isSpace
    if a.isUpper && b.isUpper && !before.any u.isWord && !rest.head?.any u.isWord then
      if startsWithDigits u 5 digits && endsAddress (digits.drop 5) then
        some ([a, b], some (digits.take 5))
      else if endsAddress digits then some ([a, b], none)
      else none
    else none
  | _ => none

/-- The first position at which an address ends so. -/
def searchTail (before : Option Char) : Text → Option (Text × Option Text)
  | [] => none
  | c :: s => (tailAt u before (c :: s)).or (searchTail (some c) s)

/-- The components of an address that are not blank. -/
def addressParts (address : Text) : List Text :=
  ((address.splitOn ',').map strip).filter fun p => !p.isEmpty

/-- **`parse_address`**: without a component that is a state the address may end in one, and then it
has no city. -/
def parseAddress : Option Text → ParsedAddress
  | none => {}
  | some address =>
    if address.isEmpty then {}
    else
      match parseParts u none (addressParts address) with
      | some parsed => parsed
      | none =>
        match searchTail u none address with
        | some parsed => ⟨none, some parsed.1, parsed.2⟩
        | none => {}

/-- **`_normalise_city`**. -/
def normaliseCity : Option Text → Text
  | none => []
  | some city =>
    if city.isEmpty then [] else strip (withOneSpace (withoutPunct (u.lowered (u.fold city))))

/-- **How names and addresses are compared**, with some rounding to four places. -/
def Comparison.ofSource (r : Rounding) (round : ℚ → ℚ) : Comparison where
  nameSimilarity := Enrichment.nameSimilarity r u
  normaliseName := fun name => Enrichment.normaliseName u (some name)
  parseAddress := Enrichment.parseAddress u
  normaliseCity := Enrichment.normaliseCity u
  lower := u.lowered
  round := round

/-! ### Addresses -/

/-- **A place address**: some components, the city, and the state with the ZIP code, and the country
or not. -/
structure StreetAddress where
  text : Text
  earlier : List Text
  city : Text
  state : Text
  zip : Text
  usa : Bool
  components : (text.splitOn ',').map strip =
    earlier ++ [city, state ++ ' ' :: zip] ++ if usa then ["USA".toList] else []
  city_ne : city ≠ []
  state_length : state.length = 2
  state_upper : ∀ c ∈ state, c.isUpper = true
  zip_length : zip.length = 5
  zip_decimal : ∀ c ∈ zip, u.isDecimal c = true

variable {u}

namespace StreetAddress

variable (a : StreetAddress u)

/-- The components before the state, without the blank ones. -/
def places : List Text := (a.earlier.filter fun p => !p.isEmpty) ++ [a.city]

/-- **The address is read right**: the city, the state and the ZIP code are the ones it ends with,
and so a place at it is rejected in another state, and scores for its state in this one. -/
structure ReadRight (env : Comparison) : Prop where
  parsed : env.parseAddress (some a.text) = ⟨some a.city, some a.state, some a.zip⟩
  rejected : a.state ≠ "CA".toList → ∀ c p, p.placeAddress = some a.text →
    (scoreMatch env c p).status = .rejected
  scored : a.state = "CA".toList → ∀ p, p.placeAddress = some a.text →
    indicator (stateOk env p) = 1

/-- **Nothing in front looks like another state**: the first component that does, if there is one,
is the same state with the same ZIP code, behind the same city. -/
def Plain : Prop :=
  ∀ front part behind parsed, a.places = front ++ part :: behind →
    (∀ p ∈ front, stateZip u p = none) → stateZip u part = some parsed →
      front.getLast? = some a.city ∧ parsed = (a.state, some a.zip)

end StreetAddress

/-! ### How an address is read -/

/-- Components that are no states are passed over. -/
theorem parseParts_append {front : List Text} (h : ∀ p ∈ front, stateZip u p = none)
    (last : Option Text) (rest : List Text) :
    parseParts u last (front ++ rest) = parseParts u (front.getLast?.or last) rest := by
  induction front generalizing last with
  | nil => rfl
  | cons p front ih =>
    rw [List.cons_append, parseParts, h p List.mem_cons_self]
    simp only
    rw [ih fun q hq => h q (List.mem_cons_of_mem p hq), List.getLast?_cons]
    cases front.getLast? <;> rfl

/-- The first component that is a state is taken. -/
theorem parseParts_state {front : List Text} {part : Text} {parsed : Text × Option Text}
    (h : ∀ p ∈ front, stateZip u p = none) (hpart : stateZip u part = some parsed)
    (rest : List Text) : parseParts u none (front ++ part :: rest) =
      some ⟨front.getLast?, some parsed.1, parsed.2⟩ := by
  rw [parseParts_append h, parseParts, hpart, Option.or_none]

namespace StreetAddress

variable (a : StreetAddress u)

/-- The state and the ZIP code at the end are read. -/
theorem stateZip_end : stateZip u (a.state ++ ' ' :: a.zip) = some (a.state, some a.zip) := by
  obtain ⟨c, d, hstate⟩ := List.length_eq_two.mp a.state_length
  have hupper := a.state_upper
  rw [hstate] at hupper ⊢
  have hc : c.isUpper = true := hupper c (by simp)
  have hd : d.isUpper = true := hupper d (by simp)
  have hspace : (' ' :: a.zip).dropWhile isSpace = a.zip := by
    obtain ⟨e, zip, hzip⟩ : ∃ e zip, a.zip = e :: zip :=
      List.exists_cons_of_length_pos (by rw [a.zip_length]; omega)
    have he : isSpace e = false :=
      u.isSpace_of_isDecimal e (a.zip_decimal e (by rw [hzip]; exact List.mem_cons_self))
    rw [hzip, List.dropWhile_cons_of_pos isSpace_space, List.dropWhile_cons_of_neg (by simp [he])]
  have htake : a.zip.take 5 = a.zip := List.take_of_length_le (by rw [a.zip_length])
  have hdrop : a.zip.drop 5 = [] := List.drop_of_length_le (by rw [a.zip_length])
  have hzip : zipBehind u (' ' :: a.zip) = some a.zip := by
    have hdigits : startsWithDigits u 5 a.zip = true := by
      rw [startsWithDigits, htake, a.zip_length]
      exact List.all_eq_true.mpr a.zip_decimal
    have hhead : ((' ' :: a.zip).head?.any isSpace) = true := isSpace_space
    simp only [zipBehind, hspace, hdigits, hhead, htake, hdrop, isPlusFour, Bool.and_self, if_true]
  simp only [List.cons_append, List.nil_append, stateZip, hc, hd, Bool.and_self, if_true, hzip,
    List.isEmpty_cons, Bool.false_eq_true, if_false, Option.map_some]

/-- The components of the address, without the blank ones. -/
theorem addressParts_text : ∃ rest, addressParts a.text =
    a.places ++ (a.state ++ ' ' :: a.zip) :: rest := by
  have hcity : [a.city, a.state ++ ' ' :: a.zip].filter (fun p => !p.isEmpty) =
      [a.city, a.state ++ ' ' :: a.zip] := by
    simp [a.city_ne]
  refine ⟨(if a.usa then ["USA".toList] else []).filter fun p => !p.isEmpty, ?_⟩
  rw [addressParts, a.components, List.filter_append, List.filter_append, hcity, places]
  simp

theorem text_ne_nil : a.text.isEmpty = false := by
  obtain ⟨rest, h⟩ := a.addressParts_text
  by_contra hempty
  rw [Bool.not_eq_false, List.isEmpty_iff] at hempty
  rw [hempty] at h
  exact absurd h.symm (by simp [places, addressParts, strip, Words.trim])

/-- **The first component that is a state is what the address is taken to say.** -/
theorem parseAddress_of_state {front behind : List Text} {part : Text} {parsed : Text × Option Text}
    (hplaces : a.places = front ++ part :: behind) (h : ∀ p ∈ front, stateZip u p = none)
    (hpart : stateZip u part = some parsed) :
    parseAddress u (some a.text) = ⟨front.getLast?, some parsed.1, parsed.2⟩ := by
  obtain ⟨rest, hparts⟩ := a.addressParts_text
  simp only [parseAddress, a.text_ne_nil, Bool.false_eq_true, if_false]
  rw [hparts, hplaces, List.append_assoc, List.cons_append, parseParts_state h hpart]

/-- **If there is none in front, it is what the address ends with.** -/
theorem parseAddress_of_none (h : ∀ p ∈ a.places, stateZip u p = none) :
    parseAddress u (some a.text) = ⟨some a.city, some a.state, some a.zip⟩ := by
  obtain ⟨rest, hparts⟩ := a.addressParts_text
  have hlast : a.places.getLast? = some a.city := List.getLast?_concat
  simp only [parseAddress, a.text_ne_nil, Bool.false_eq_true, if_false]
  rw [hparts, parseParts_state h a.stateZip_end, hlast]

/-- What is read right scores by its state. -/
theorem readRight_of_parsed {env : Comparison}
    (h : env.parseAddress (some a.text) = ⟨some a.city, some a.state, some a.zip⟩) :
    a.ReadRight env where
  parsed := h
  rejected := by
    intro hstate c p hp
    refine statusOf_eq_rejected_iff.mpr (.inl (.inl ?_))
    rw [stateOk, hp, h]
    simpa using hstate
  scored := by
    intro hstate p hp
    rw [stateOk, hp, h, hstate]
    rfl

/-- **When an address is read right**: exactly if nothing in front of its state looks like another
one. -/
theorem readRight_iff (a : StreetAddress u) (r : Rounding) (round : ℚ → ℚ) :
    a.ReadRight (.ofSource u r round) ↔ a.Plain := by
  constructor
  · intro h front part behind parsed hplaces hfront hpart
    have hparsed : parseAddress u (some a.text) = _ := h.parsed
    rw [a.parseAddress_of_state hplaces hfront hpart] at hparsed
    obtain ⟨hcity, hstate, hzip⟩ := ParsedAddress.mk.inj hparsed
    exact ⟨hcity, Prod.ext (Option.some.inj hstate) hzip⟩
  · intro h
    refine a.readRight_of_parsed ?_
    by_cases hnone : ∀ p ∈ a.places, stateZip u p = none
    · exact a.parseAddress_of_none hnone
    · obtain ⟨part, hfind⟩ : ∃ part, a.places.find? (fun p => (stateZip u p).isSome) = some part := by
        push Not at hnone
        obtain ⟨p, hp, hstate⟩ := hnone
        exact Option.isSome_iff_exists.mp
          (List.find?_isSome.mpr ⟨p, hp, Option.isSome_iff_ne_none.mpr hstate⟩)
      obtain ⟨hsome, front, behind, hplaces, hfront⟩ := List.find?_eq_some_iff_append.mp hfind
      obtain ⟨parsed, hpart⟩ := Option.isSome_iff_exists.mp hsome
      have hfront : ∀ p ∈ front, stateZip u p = none := by simpa using hfront
      obtain ⟨hcity, rfl⟩ := h front part behind parsed hplaces hfront hpart
      have hparsed := a.parseAddress_of_state hplaces hfront hpart
      rw [hcity] at hparsed
      exact hparsed

/-- What the components of a text are when it is made of them, with a comma and a space between
each two. -/
theorem components_join {cs : List Text} (hne : cs ≠ []) (hcomma : ∀ c ∈ cs, ',' ∉ c) :
    (((", ".toList).intercalate cs).splitOn ',').map strip = cs.map strip := by
  induction cs with
  | nil => exact absurd rfl hne
  | cons c cs ih =>
    have hc := hcomma c List.mem_cons_self
    cases cs with
    | nil => rw [List.intercalate_singleton, List.splitOn_eq_singleton hc]
    | cons d cs =>
      have hrest := ih (by simp) fun e he => hcomma e (List.mem_cons_of_mem c he)
      obtain ⟨v, vs, hvs⟩ := List.exists_cons_of_ne_nil
        (List.splitOn_ne_nil ',' ((", ".toList).intercalate (d :: cs)))
      rw [hvs] at hrest
      have hsplit : (", ".toList).intercalate (c :: d :: cs) =
          c ++ ',' :: ' ' :: (", ".toList).intercalate (d :: cs) := by
        rw [List.intercalate_cons_cons, List.append_assoc]
        rfl
      rw [hsplit, List.splitOn_append_cons_self_of_not_mem hc, List.splitOn_cons_eq_if_modifyHead,
        if_neg (by decide), hvs, List.modifyHead_cons, List.map_cons, List.map_cons, List.map_cons,
        ← List.map_cons, ← hrest]
      rfl

/-- **Every text that is made so is an address.** -/
theorem exists_text {earlier : List Text} {city state zip : Text} (usa : Bool)
    (hearlier : ∀ c ∈ earlier, ',' ∉ c) (hcity : city ≠ []) (hcomma : ',' ∉ city)
    (hstrip : strip city = city) (hstate : state.length = 2)
    (hupper : ∀ c ∈ state, c.isUpper = true) (hzip : zip.length = 5)
    (hdecimal : ∀ c ∈ zip, u.isDecimal c = true) :
    ∃ a : StreetAddress u, a.text = (", ".toList).intercalate
        (earlier ++ [city, state ++ ' ' :: zip] ++ if usa then ["USA".toList] else []) ∧
      a.earlier = earlier.map strip ∧ a.city = city ∧ a.state = state ∧ a.zip = zip := by
  have hspace {c : Char} (hc : c.isUpper = true) : isSpace c = false := by
    obtain ⟨hlow, hhigh⟩ := Ascii.isUpper_iff.mp hc
    exact isSpace_of_printed (by omega) (by omega)
  have hend : strip (state ++ ' ' :: zip) = state ++ ' ' :: zip := by
    refine Words.trim_eq_self ?_ ?_
    · obtain ⟨c, d, rfl⟩ := List.length_eq_two.mp hstate
      intro e he
      rw [← Option.some.inj he]
      exact hspace (hupper c List.mem_cons_self)
    · intro e he
      have hne : zip ≠ [] := List.ne_nil_of_length_pos (by omega)
      rw [List.getLast?_append_cons, List.getLast?_cons_of_ne_nil hne] at he
      exact u.isSpace_of_isDecimal e (hdecimal e (List.mem_of_getLast? he))
  have husa : strip "USA".toList = "USA".toList := by decide
  have hcommas : ∀ c ∈ earlier ++ [city, state ++ ' ' :: zip] ++ (if usa then ["USA".toList] else []),
      ',' ∉ c := by
    have hstatezip : ',' ∉ state ++ ' ' :: zip := by
      rw [List.mem_append, List.mem_cons]
      rintro (h | h | h)
      · exact absurd (hupper _ h) (by decide)
      · exact absurd h (by decide)
      · have hdigit := hdecimal _ h
        rw [u.isDecimal_ascii _ (by decide)] at hdigit
        exact absurd hdigit (by decide)
    intro c hc
    rw [List.append_assoc, List.mem_append, List.mem_append] at hc
    rcases hc with hc | hc | hc
    · exact hearlier c hc
    · simp only [List.mem_cons, List.not_mem_nil, or_false] at hc
      rcases hc with rfl | rfl
      · exact hcomma
      · exact hstatezip
    · cases usa with
      | false => exact absurd hc List.not_mem_nil
      | true =>
        rw [List.mem_singleton.mp hc]
        decide
  have hcomponents := components_join (by simp) hcommas
  rw [List.map_append, List.map_append, List.map_cons, List.map_singleton, hstrip, hend,
    show (if usa then ["USA".toList] else []).map strip = if usa then ["USA".toList] else [] by
      cases usa
      · rfl
      · exact congrArg (fun c => [c]) husa] at hcomponents
  exact ⟨⟨_, earlier.map strip, city, state, zip, usa, hcomponents, hcity, hstate, hupper, hzip,
    hdecimal⟩, rfl, rfl, rfl, rfl, rfl⟩

end StreetAddress

end Parse

/-! ### Addresses that are read wrong -/

/-- A comparison that rounds nothing. -/
def Comparison.exact : Comparison := .ofSource .plain .exact id

/-- The roofer, in a street with a directional. -/
def directional : Place :=
  { shop with placeAddress := some "12 Elm St, NE, Los Angeles, CA 90032, USA".toList }

/-- A namesake in Phoenix, in a building that is called by the abbreviation of a state. -/
def building : Place :=
  { namesake with placeAddress := some "100 Main St, CA, Phoenix, AZ 85001, USA".toList }

theorem parseAddress_directional : Comparison.exact.parseAddress directional.placeAddress =
    ⟨some "12 Elm St".toList, some "NE".toList, none⟩ := by
  decide

theorem parseAddress_building : Comparison.exact.parseAddress building.placeAddress =
    ⟨some "100 Main St".toList, some "CA".toList, none⟩ := by
  decide

/-- The namesake in Phoenix is left for review, and so gets its reviews. -/
theorem status_building : (scoreMatch .exact roofer building).status = .needsReview := by
  have hstate : stateOk .exact building = true := by
    rw [stateOk, parseAddress_building]
    rfl
  have hcity : cityOk .exact roofer building = false := by
    rw [cityOk, parseAddress_building]
    decide
  have hcategory : categoryPlausible .exact building.placeCategory = true := by decide
  have hname : nameOf .exact roofer building = 1 := by
    have hnames : roofer.displayName = building.placeName := rfl
    have hmeasure : Comparison.exact.nameSimilarity = nameSimilarity .exact .plain := rfl
    rw [nameOf, hmeasure, hnames]
    refine nameSimilarity_eq_one rfl ?_
    decide
  have htotal : total .exact roofer building = 7 / 10 := by
    rw [total, hname, hstate, hcity, hcategory]
    decide +kernel
  have hstatus : statusOf .exact roofer building = .needsReview := by
    rw [statusOf, hstate, hname, htotal]
    decide +kernel
  exact hstatus

/-- **Addresses that are read wrong**: a place in this state is of another one, and a place in
Phoenix is not rejected. -/
theorem not_readRight :
    (∃ a : StreetAddress .plain, directional.placeAddress = some a.text ∧ a.state = "CA".toList ∧
      ¬ a.ReadRight .exact) ∧
    ∃ a : StreetAddress .plain, building.placeAddress = some a.text ∧ a.state = "AZ".toList ∧
      (scoreMatch .exact roofer building).status = .needsReview := by
  have hupper {s : Text} (h : s.all Char.isUpper = true) : ∀ c ∈ s, c.isUpper = true :=
    List.all_eq_true.mp h
  have hdigit {s : Text} (h : s.all Char.isDigit = true) : ∀ c ∈ s, c.isDigit = true :=
    List.all_eq_true.mp h
  constructor
  · refine ⟨⟨"12 Elm St, NE, Los Angeles, CA 90032, USA".toList, ["12 Elm St".toList, "NE".toList],
      "Los Angeles".toList, "CA".toList, "90032".toList, true, by decide, by decide, by decide,
      hupper rfl, by decide, hdigit rfl⟩, rfl, rfl, fun h => ?_⟩
    have hzip := congrArg ParsedAddress.postalCode (parseAddress_directional.symm.trans h.parsed)
    exact Option.some_ne_none _ hzip.symm
  · exact ⟨⟨"100 Main St, CA, Phoenix, AZ 85001, USA".toList, ["100 Main St".toList, "CA".toList],
      "Phoenix".toList, "AZ".toList, "85001".toList, true, by decide, by decide, by decide,
      hupper rfl, by decide, hdigit rfl⟩, rfl, rfl, status_building⟩

end Marketplace.Enrichment
