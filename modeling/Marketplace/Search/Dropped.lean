import Marketplace.Board.Query
import Marketplace.Directory.Query

/-!
# What becomes of a filter

Both searches promise that a filter which makes no sense is dropped and named, so that it is
answerable why a filter did nothing. Here each parameter that narrows a search is held against
that promise: it is blank, or the parsed filters apply it, or its name is among those dropped
(`Marketplace.Search.Accounted`).

The two parsers read a location alike, in three parts under one name
(`Marketplace.Search.locate`), and there the promise is kept or broken in one way for both: a
location is dropped without a word where no part of it can be read, and a radius that cannot be
read is passed over where the centre can (`Marketplace.Search.LocationReadable`,
`Marketplace.Search.locate_accounted_iff`). What else is dropped unnamed differs: the directory
does not name a `verified` that it does not know, and the board never names a trade.
-/

namespace Marketplace.Search

/-- **A parameter is accounted for**: it is blank, or it is applied, or its name is among those
dropped. -/
def Accounted (raw : Option Text) (applied : Prop) (name : Text) (ignored : List Text) : Prop :=
  present raw = none ∨ applied ∨ name ∈ ignored

theorem Accounted.of_applied {raw : Option Text} {applied : Prop} {name : Text}
    {ignored : List Text} (h : applied) : Accounted raw applied name ignored := Or.inr (Or.inl h)

theorem Accounted.of_mem {raw : Option Text} {applied : Prop} {name : Text} {ignored : List Text}
    (h : name ∈ ignored) : Accounted raw applied name ignored := Or.inr (Or.inr h)

theorem Accounted.mono {raw : Option Text} {read applied : Prop} {name : Text}
    {few many : List Text} (h : Accounted raw read name few) (happlied : read → applied)
    (hsub : few ⊆ many) : Accounted raw applied name many :=
  Or.imp_right (Or.imp happlied fun hmem => hsub hmem) h

/-- What else is dropped is nothing to a parameter of another name. -/
theorem Accounted.congr_iff {raw : Option Text} {applied : Prop} {name : Text}
    {few many : List Text} (h : name ∈ few ↔ name ∈ many) :
    Accounted raw applied name few ↔ Accounted raw applied name many := by
  rw [Accounted, h]
  rfl

/-- The text of a search is always applied, as far as it is read. -/
theorem queryText_accounted (raw : Option Text) (name : Text) (ignored : List Text) :
    Accounted raw (∃ text ∈ present raw, queryText raw = some (text.take maxQueryChars)) name
      ignored := by
  rcases h : present raw with _ | text
  · exact Or.inl h
  · exact .of_applied ⟨text, rfl, by rw [queryText, h]; rfl⟩

/-- What is made of an outcome afterwards does not decide whether it fails. -/
theorem bind_pure_eq_error_iff {ε α β : Type} {x : Except ε α} {f : α → β} {e : ε} :
    (x >>= fun a => pure (f a)) = .error e ↔ x.map (fun _ => ()) = .error e := by
  rcases x with e' | a
  · constructor
    · intro h
      exact congrArg Except.error (Except.error.inj h)
    · intro h
      exact congrArg Except.error (Except.error.inj h)
  · constructor
    · intro h
      exact nomatch h
    · intro h
      exact nomatch h

/-! ### A location in three parts -/

variable (env : Env)

/-- The name of a location that was dropped. -/
def locationName : Text := "lat/lon/radius_m".toList

/-- How both searches read a location, in three parts that stand or fall together. -/
def locate {N : Type} (build : ℚ → ℚ → Option ℚ → N) (lat lon radius : Option Text) :
    Option N × List Text :=
  match parseF64 env lat, parseF64 env lon, parseF64 env radius with
  | some lat, some lon, radius =>
    if -90 ≤ lat ∧ lat ≤ 90 ∧ -180 ≤ lon ∧ lon ≤ 180 then (some (build lat lon radius), [])
    else (none, [locationName])
  | none, none, none => (none, [])
  | _, _, _ => (none, [locationName])

/-- The parts of a location make a centre. -/
def Centred (lat lon : Option Text) : Prop :=
  ∃ x ∈ parseF64 env lat, ∃ y ∈ parseF64 env lon, -90 ≤ x ∧ x ≤ 90 ∧ -180 ≤ y ∧ y ≤ 180

/-- **A location that can be told to be unusable**: unless it is blank, one of its parts is a
number, and a radius around a centre is one. -/
structure LocationReadable (lat lon radius : Option Text) : Prop where
  part : parseF64 env lat = none → parseF64 env lon = none → parseF64 env radius = none →
    present lat = none ∧ present lon = none ∧ present radius = none
  radius : Centred env lat lon → parseF64 env radius = none → present radius = none

variable {env} {N : Type} {build : ℚ → ℚ → Option ℚ → N} {lat lon radius : Option Text}

/-- Around a centre, the location is applied, and nothing is dropped. -/
theorem locate_of_centred (h : Centred env lat lon) :
    ∃ x y, parseF64 env lat = some x ∧ parseF64 env lon = some y ∧
      locate env build lat lon radius = (some (build x y (parseF64 env radius)), []) := by
  obtain ⟨x, hx, y, hy, hrange⟩ := h
  have hx' : parseF64 env lat = some x := hx
  have hy' : parseF64 env lon = some y := hy
  refine ⟨x, y, hx', hy', ?_⟩
  simp only [locate, hx', hy']
  rw [if_pos hrange]

/-- Without a centre nothing is applied, and the location is named if a part is a number. -/
theorem locate_of_not_centred (h : ¬ Centred env lat lon) :
    (locate env build lat lon radius).1 = none ∧
      ((locate env build lat lon radius).2 = [locationName] ∨
        (locate env build lat lon radius).2 = [] ∧ parseF64 env lat = none ∧
          parseF64 env lon = none ∧ parseF64 env radius = none) := by
  simp only [locate]
  split
  next _ x y hx hy =>
    have hout : ¬ (-90 ≤ x ∧ x ≤ 90 ∧ -180 ≤ y ∧ y ≤ 180) := fun hin => h ⟨x, hx, y, hy, hin⟩
    rw [if_neg hout]
    exact ⟨rfl, Or.inl rfl⟩
  next hx hy hr => exact ⟨rfl, Or.inr ⟨rfl, hx, hy, hr⟩⟩
  next => exact ⟨rfl, Or.inl rfl⟩

/-- **When a location is accounted for**, part by part, whatever it is turned into: where
`LatLon` and `Ranged` say that the centre and the radius are applied. -/
theorem locate_accounted_iff {LatIs LonIs Ranged : N → ℚ → Prop}
    (hlat : ∀ x y r, LatIs (build x y r) x) (hlon : ∀ x y r, LonIs (build x y r) y)
    (hradius : ∀ x y r, Ranged (build x y (some r)) r) :
    (Accounted lat (∃ n ∈ (locate env build lat lon radius).1, ∃ x ∈ parseF64 env lat, LatIs n x)
        locationName (locate env build lat lon radius).2 ∧
      Accounted lon (∃ n ∈ (locate env build lat lon radius).1, ∃ y ∈ parseF64 env lon, LonIs n y)
        locationName (locate env build lat lon radius).2 ∧
      Accounted radius
        (∃ n ∈ (locate env build lat lon radius).1, ∃ r ∈ parseF64 env radius, Ranged n r)
        locationName (locate env build lat lon radius).2) ↔ LocationReadable env lat lon radius := by
  by_cases hcentre : Centred env lat lon
  · obtain ⟨x, y, hx, hy, heq⟩ := @locate_of_centred env _ build lat lon radius hcentre
    rw [heq]
    constructor
    · rintro ⟨-, -, hr⟩
      refine ⟨fun hno => absurd hx (by simp [hno]), fun _ hno => ?_⟩
      rcases hr with hblank | ⟨n, -, r, hr, -⟩ | hmem
      · exact hblank
      · rw [hno] at hr
        exact absurd hr (by simp)
      · exact absurd hmem (by simp)
    · intro hread
      refine ⟨.of_applied ⟨_, rfl, x, hx, hlat _ _ _⟩, .of_applied ⟨_, rfl, y, hy, hlon _ _ _⟩, ?_⟩
      rcases hr : parseF64 env radius with _ | r
      · exact Or.inl (hread.radius hcentre hr)
      · exact .of_applied ⟨_, rfl, r, rfl, hradius _ _ _⟩
  · obtain ⟨hnone, hname | ⟨hnil, hx, hy, hr⟩⟩ :=
      @locate_of_not_centred env _ build lat lon radius hcentre
    · rw [hname]
      have hmem : locationName ∈ [locationName] := by simp
      refine iff_of_true ⟨.of_mem hmem, .of_mem hmem, .of_mem hmem⟩
        ⟨fun hx hy hr => ?_, fun hcentre' => absurd hcentre' hcentre⟩
      -- a location without a number in it is not named
      exact absurd hname (by simp [locate, hx, hy, hr])
    · rw [hnone, hnil]
      constructor
      · rintro ⟨hl, ho, hd⟩
        refine ⟨fun _ _ _ => ⟨?_, ?_, ?_⟩, fun hcentre' => absurd hcentre' hcentre⟩
        · simpa [Accounted] using hl
        · simpa [Accounted] using ho
        · simpa [Accounted] using hd
      · intro hread
        obtain ⟨hl, ho, hd⟩ := hread.part hx hy hr
        exact ⟨Or.inl hl, Or.inl ho, Or.inl hd⟩

end Marketplace.Search

/-! ### The directory -/

namespace Marketplace.Directory

open Search

/-- The parameters that narrow the directory. -/
inductive Filter
  | q
  | trade
  | verified
  | zip
  | lat
  | lon
  | radiusM
  | bbox
  deriving DecidableEq

/-- The value of a parameter, as it came. -/
def Filter.raw (raw : RawQuery) : Filter → Option Text
  | q => raw.q
  | trade => raw.trade
  | verified => raw.verified
  | zip => raw.zip
  | lat => raw.lat
  | lon => raw.lon
  | radiusM => raw.radiusM
  | bbox => raw.bbox

/-- The name that a parameter is reported under. -/
def Filter.name : Filter → Text
  | q => "q".toList
  | trade => "trade".toList
  | verified => "verified".toList
  | zip => "zip".toList
  | lat | lon | radiusM => locationName
  | bbox => "bbox".toList

variable (env : Search.Env) (vocabulary : Vocabulary) (off : Text → Prop)

/-- A parameter is applied in the filters: they ask for what it says. Which values of `verified`
ask for nothing more is left open. -/
def Filter.Applied (raw : RawQuery) (f : Filters) : Filter → Prop
  | q => ∃ text ∈ present raw.q, f.query = some (text.take maxQueryChars)
  | trade => f.tradeIds ≠ [] ∧
      ∃ list ∈ raw.trade, f.tradeIds = tradeIdsForSlugs vocabulary (slugs list)
  | verified => f.verifiedOnly = true ∨ f.verifiedOnly = false ∧ ∃ value ∈ raw.verified, off value
  | zip => ∃ zip ∈ present raw.zip, f.postalCode = some zip
  | lat => ∃ n ∈ f.near, ∃ x ∈ parseF64 env raw.lat, n.lat = x
  | lon => ∃ n ∈ f.near, ∃ y ∈ parseF64 env raw.lon, n.lon = y
  | radiusM => ∃ n ∈ f.near, ∃ r ∈ parseF64 env raw.radiusM, n.radiusM = some (clamp r 1 maxRadiusM)
  | bbox => ∃ value ∈ raw.bbox, ∃ b, parseBbox env value = some b ∧ f.bbox = some b

/-- **No filter of the directory is dropped without a word.** -/
def NoneDropped (raw : RawQuery) (request : SearchRequest) : Prop :=
  ∀ filter : Filter, Accounted (filter.raw raw)
    (filter.Applied env vocabulary off raw request.filters) filter.name request.ignored

/-- **A query string whose unusable filters the directory can tell**: its `verified` is a value
that it knows, and its location can be read. -/
structure Readable (raw : RawQuery) : Prop where
  verified : present raw.verified = none ∨ parseVerified raw = true ∨
    ∃ value ∈ raw.verified, off value
  location : LocationReadable env raw.lat raw.lon raw.radiusM

/-- The query string with nothing left of its filters but a location that is applied. -/
def RawQuery.unfiltered (raw : RawQuery) : RawQuery where
  lat := if (parseNear env raw).1.isSome then raw.lat else none
  lon := if (parseNear env raw).1.isSome then raw.lon else none
  radiusM := if (parseNear env raw).1.isSome then raw.radiusM else none
  sort := raw.sort
  limit := raw.limit
  cursor := raw.cursor

variable {env vocabulary off} {raw : RawQuery}

/-- The names of the filters that a search drops. -/
theorem parse_ignored {ids : List Uuid} {request : SearchRequest}
    (h : parse env raw ids = .ok request) :
    request.ignored =
      ignoredTrade raw ids ++ (parseZip raw).2 ++ (parseNear env raw).2 ++
        (parseViewport env raw).2 := by
  rw [parse] at h
  simp only [bind, Except.bind] at h
  split at h
  · simp at h
  · split at h
    · simp at h
    · split at h
      · simp at h
      · obtain rfl := Except.ok.inj h
        rfl

/-- What a search is refused for. -/
theorem parse_error {ids : List Uuid} :
    (parse env raw ids).map (fun _ => ()) =
      (do
        let _ ← parseSort raw (parseNear env raw).1
        let _ ← parseLimit raw
        let _ ← parseCursor env raw
        return ()) := by
  rw [parse]
  simp only [bind, Except.bind]
  rcases parseSort raw (parseNear env raw).1 with _ | _
  · rfl
  rcases parseLimit raw with _ | _
  · rfl
  simp only
  rcases parseCursor env raw with _ | _
  · rfl
  · rfl

/-- The directory reads a location as both searches do. -/
theorem parseNear_eq_locate :
    parseNear env raw =
      locate env (fun lat lon radius => ⟨lat, lon, radius.map fun r => clamp r 1 maxRadiusM⟩)
        raw.lat raw.lon raw.radiusM := rfl

/-- Without its unusable filters, a query string has the same location. -/
theorem parseNear_unfiltered : (parseNear env (raw.unfiltered env)).1 = (parseNear env raw).1 := by
  rcases h : (parseNear env raw).1 with _ | n
  · have hno : (parseNear env raw).1.isSome = false := by rw [h]; rfl
    rw [parseNear_eq_locate, RawQuery.unfiltered, hno]
    rfl
  · have hsome : (parseNear env raw).1.isSome = true := by rw [h]; rfl
    rw [parseNear_eq_locate, RawQuery.unfiltered, hsome]
    exact h

/-- **No unusable filter fails the request**: what fails, fails without its filters too. -/
theorem resolve_unfiltered {e : AppError} (h : resolve env vocabulary raw = .error e) :
    resolve env vocabulary (raw.unfiltered env) = .error e := by
  rw [resolve, bind_pure_eq_error_iff, parse_error] at h ⊢
  rw [parseNear_unfiltered]
  exact h

/-- A trade is applied, or named where nobody offers it. -/
theorem ignoredTrade_accounted :
    Accounted raw.trade
      (tradeIds vocabulary raw ≠ [] ∧
        ∃ list ∈ raw.trade, tradeIds vocabulary raw = tradeIdsForSlugs vocabulary (slugs list))
      "trade".toList (ignoredTrade raw (tradeIds vocabulary raw)) := by
  rcases hp : present raw.trade with _ | value
  · exact Or.inl hp
  by_cases hids : tradeIds vocabulary raw = []
  · refine .of_mem ?_
    rw [ignoredTrade, hp, hids]
    exact List.mem_singleton_self _
  · refine .of_applied ⟨hids, ?_⟩
    rcases hraw : raw.trade with _ | list
    · exact absurd (by rw [tradeIds, hraw]) hids
    · refine ⟨list, rfl, ?_⟩
      have heq : tradeIds vocabulary raw = if (slugs list).isEmpty then [] else
          tradeIdsForSlugs vocabulary (slugs list) := by rw [tradeIds, hraw]
      by_cases hempty : (slugs list).isEmpty = true
      · exact absurd (by rw [heq, if_pos hempty]) hids
      · rw [heq, if_neg hempty]

/-- A ZIP code is applied or named. -/
theorem parseZip_accounted :
    Accounted raw.zip (∃ zip ∈ present raw.zip, (parseZip raw).1 = some zip) "zip".toList
      (parseZip raw).2 := by
  rcases hp : present raw.zip with _ | zip
  · exact Or.inl hp
  by_cases hz : isZip zip = true
  · exact .of_applied ⟨zip, rfl, by simp [parseZip, hp, hz]⟩
  · exact .of_mem (by simp [parseZip, hp, hz])

/-- A viewport is applied or named. -/
theorem parseViewport_accounted :
    Accounted raw.bbox
      (∃ value ∈ raw.bbox, ∃ b, parseBbox env value = some b ∧ (parseViewport env raw).1 = some b)
      "bbox".toList (parseViewport env raw).2 := by
  rcases hraw : raw.bbox with _ | value
  · exact Or.inl rfl
  rcases hb : parseBbox env value with _ | b
  · exact .of_mem (by simp [parseViewport, hraw, hb])
  · exact .of_applied ⟨value, rfl, b, hb, by simp [parseViewport, hraw, hb]⟩

/-- Everything that is dropped is a trade, a ZIP code, a location or a viewport, and a location
only where its parts say so. -/
theorem mem_ignored {ids : List Uuid} {n : Text}
    (h : n ∈ ignoredTrade raw ids ++ (parseZip raw).2 ++ (parseNear env raw).2 ++
      (parseViewport env raw).2) :
    n = "trade".toList ∨ n = "zip".toList ∨ n ∈ (parseNear env raw).2 ∨ n = "bbox".toList := by
  simp only [List.mem_append] at h
  rcases h with ((h | h) | h) | h
  · rw [ignoredTrade] at h
    split at h
    · exact Or.inl (List.mem_singleton.mp h)
    · exact absurd h (by simp)
  · rw [parseZip] at h
    split at h
    · split at h
      · exact absurd h (by simp)
      · exact Or.inr (Or.inl (List.mem_singleton.mp h))
    · exact absurd h (by simp)
  · exact Or.inr (Or.inr (Or.inl h))
  · rw [parseViewport] at h
    split at h
    · split at h
      · exact absurd h (by simp)
      · exact Or.inr (Or.inr (Or.inr (List.mem_singleton.mp h)))
    · exact absurd h (by simp)

/-- A location is dropped under no other name. -/
theorem mem_parseNear {n : Text} (h : n ∈ (parseNear env raw).2) : n = locationName := by
  rw [parseNear] at h
  split at h
  · split at h
    · exact absurd h (by simp)
    · exact List.mem_singleton.mp h
  · exact absurd h (by simp)
  · exact List.mem_singleton.mp h

/-- **When the directory drops no filter without a word.** -/
theorem noneDropped_iff {request : SearchRequest} (h : resolve env vocabulary raw = .ok request) :
    NoneDropped env vocabulary off raw request ↔ Readable env off raw := by
  obtain ⟨r, hparse, rfl⟩ := resolve_eq h
  obtain ⟨-, -, -, hfilters⟩ := parse_eq hparse
  have hlocation : locationName ∈ (parseNear env raw).2 ↔ locationName ∈ r.ignored := by
    rw [parse_ignored hparse]
    constructor
    · intro hmem
      exact List.mem_append_left _ (List.mem_append_right _ hmem)
    · intro hmem
      rcases mem_ignored hmem with hn | hn | hn | hn
      · exact absurd hn (by decide)
      · exact absurd hn (by decide)
      · exact hn
      · exact absurd hn (by decide)
  have hverified : "verified".toList ∉ r.ignored := by
    rw [parse_ignored hparse]
    intro hmem
    rcases mem_ignored hmem with hn | hn | hn | hn
    · exact absurd hn (by decide)
    · exact absurd hn (by decide)
    · exact absurd (mem_parseNear hn) (by decide)
    · exact absurd hn (by decide)
  have hnear : (Accounted raw.lat (∃ n ∈ (parseNear env raw).1, ∃ x ∈ parseF64 env raw.lat, n.lat = x)
        locationName (parseNear env raw).2 ∧
      Accounted raw.lon (∃ n ∈ (parseNear env raw).1, ∃ y ∈ parseF64 env raw.lon, n.lon = y)
        locationName (parseNear env raw).2 ∧
      Accounted raw.radiusM
        (∃ n ∈ (parseNear env raw).1, ∃ r ∈ parseF64 env raw.radiusM,
          n.radiusM = some (clamp r 1 maxRadiusM))
        locationName (parseNear env raw).2) ↔ LocationReadable env raw.lat raw.lon raw.radiusM :=
    locate_accounted_iff (fun _ _ _ => rfl) (fun _ _ _ => rfl) (fun _ _ _ => rfl)
  have hnearEq : (parseNear env raw).1 = r.filters.near := by rw [hfilters]
  rw [Accounted.congr_iff hlocation, Accounted.congr_iff hlocation, Accounted.congr_iff hlocation,
    hnearEq] at hnear
  have hverifiedEq : r.filters.verifiedOnly = parseVerified raw := by rw [hfilters]
  constructor
  · intro hnone
    refine ⟨?_, hnear.mp ⟨hnone .lat, hnone .lon, hnone .radiusM⟩⟩
    rcases hnone .verified with hblank | happlied | hmem
    · exact Or.inl hblank
    · rcases happlied with hon | ⟨-, hoff⟩
      · exact Or.inr (Or.inl (hverifiedEq ▸ hon))
      · exact Or.inr (Or.inr hoff)
    · exact absurd hmem hverified
  · rintro ⟨hread, hlocated⟩ (_ | _ | _ | _ | _ | _ | _ | _)
    · show Accounted raw.q (∃ text ∈ present raw.q, r.filters.query = some _) _ r.ignored
      rw [hfilters]
      exact queryText_accounted _ _ _
    · show Accounted raw.trade (r.filters.tradeIds ≠ [] ∧ ∃ list ∈ raw.trade,
        r.filters.tradeIds = tradeIdsForSlugs vocabulary (slugs list)) _ r.ignored
      rw [hfilters, parse_ignored hparse]
      refine ignoredTrade_accounted.mono id fun n hn => ?_
      exact List.mem_append_left _ (List.mem_append_left _ (List.mem_append_left _ hn))
    · show Accounted raw.verified (r.filters.verifiedOnly = true ∨ r.filters.verifiedOnly = false ∧
        ∃ value ∈ raw.verified, off value) _ r.ignored
      rw [hverifiedEq]
      rcases hread with hblank | hon | hoff
      · exact Or.inl hblank
      · exact .of_applied (Or.inl hon)
      · rcases hv : parseVerified raw
        · exact .of_applied (Or.inr ⟨rfl, hoff⟩)
        · exact .of_applied (Or.inl rfl)
    · show Accounted raw.zip (∃ zip ∈ present raw.zip, r.filters.postalCode = some zip) _ r.ignored
      rw [hfilters, parse_ignored hparse]
      refine parseZip_accounted.mono id fun n hn => ?_
      exact List.mem_append_left _ (List.mem_append_left _ (List.mem_append_right _ hn))
    · exact (hnear.mpr hlocated).1
    · exact (hnear.mpr hlocated).2.1
    · exact (hnear.mpr hlocated).2.2
    · show Accounted raw.bbox (∃ value ∈ raw.bbox, ∃ b, parseBbox env value = some b ∧
        r.filters.bbox = some b) _ r.ignored
      rw [hfilters, parse_ignored hparse]
      exact parseViewport_accounted.mono id fun n hn => List.mem_append_right _ hn

end Marketplace.Directory

/-! ### The job board -/

namespace Marketplace.Board

open Search

/-- The parameters that narrow the board. -/
inductive Filter
  | q
  | timeline
  | buildType
  | budgetMin
  | trade
  | zip
  | lat
  | lon
  | radiusM
  deriving DecidableEq

/-- The value of a parameter, as it came. -/
def Filter.raw (raw : RawQuery) : Filter → Option Text
  | q => raw.q
  | timeline => raw.timeline
  | buildType => raw.buildType
  | budgetMin => raw.budgetMin
  | trade => raw.trade
  | zip => raw.zip
  | lat => raw.lat
  | lon => raw.lon
  | radiusM => raw.radiusM

/-- The name that a parameter is reported under. -/
def Filter.name : Filter → Text
  | q => "q".toList
  | timeline => "timeline".toList
  | buildType => "build_type".toList
  | budgetMin => "budget_min".toList
  | trade => "trade".toList
  | zip => "zip".toList
  | lat | lon | radiusM => locationName

variable (env : Search.Env) (vocabulary : Vocabulary)

/-- A parameter is applied in the filters: they ask for what it says. -/
def Filter.Applied (raw : RawQuery) (f : Filters) : Filter → Prop
  | q => ∃ text ∈ present raw.q, f.query = some (text.take maxQueryChars)
  | timeline => ∃ value ∈ present raw.timeline, ∃ t, JobTimeline.parseRequest value = .ok t ∧
      f.timeline = some t
  | buildType => ∃ value ∈ present raw.buildType, ∃ b, BuildType.parseRequest value = .ok b ∧
      f.buildType = some b
  | budgetMin => ∃ value ∈ present raw.budgetMin, ∃ cents : ℕ, parseI64 value = some (cents : ℤ) ∧
      f.budgetMinCents = some cents
  | trade => ∃ list ∈ present raw.trade, ∃ ids, ids ≠ [] ∧
      ids = tradeIdsForSlugs vocabulary (slugs list) ∧ f.tradeIds = some ids
  | zip => ∃ zip ∈ present raw.zip, f.postalCode = some zip
  | lat => ∃ n ∈ f.near, ∃ x ∈ parseF64 env raw.lat, n.lat = x
  | lon => ∃ n ∈ f.near, ∃ y ∈ parseF64 env raw.lon, n.lon = y
  | radiusM => ∃ n ∈ f.near, ∃ r ∈ parseF64 env raw.radiusM, n.radiusM = clamp r 1 maxRadiusM

/-- **No filter of the board is dropped without a word.** -/
def NoneDropped (raw : RawQuery) (query : JobQuery) : Prop :=
  ∀ filter : Filter, Accounted (filter.raw raw)
    (filter.Applied env vocabulary raw query.filters) filter.name query.ignored

/-- **A query string whose unusable filters the board can tell**: it names a trade that somebody
offers or none at all, and its location can be read. -/
structure Readable (raw : RawQuery) : Prop where
  trade : present raw.trade = none ∨ rawTradeIds vocabulary raw ≠ []
  location : LocationReadable env raw.lat raw.lon raw.radiusM

/-- The query string with nothing left of its filters but a location that is applied. -/
def RawQuery.unfiltered (raw : RawQuery) : RawQuery where
  lat := if (parseNear env raw).1.isSome then raw.lat else none
  lon := if (parseNear env raw).1.isSome then raw.lon else none
  radiusM := if (parseNear env raw).1.isSome then raw.radiusM else none
  sort := raw.sort
  limit := raw.limit
  cursor := raw.cursor

variable {env vocabulary} {raw : RawQuery}

/-- The names of the filters that a query drops. -/
theorem parse_ignored {ids : List Uuid} {query : JobQuery} (h : parse env raw ids = .ok query) :
    query.ignored =
      (optional "timeline" raw.timeline parseTimeline).2 ++
        (optional "build_type" raw.buildType parseBuildType).2 ++
        (optional "budget_min" raw.budgetMin parseBudgetMin).2 ++
        (optional "zip" raw.zip parseZip).2 ++ (parseNear env raw).2 := by
  rw [parse] at h
  simp only [bind, Except.bind] at h
  split at h
  · simp at h
  · split at h
    · simp at h
    · split at h
      · simp at h
      · obtain rfl := Except.ok.inj h
        rfl

/-- What a query is refused for. -/
theorem parse_error {ids : List Uuid} :
    (parse env raw ids).map (fun _ => ()) =
      (do
        let _ ← parseLimit raw
        let _ ← parseCursor env raw
        let _ ← parseSort raw (parseNear env raw).1
        return ()) := by
  rw [parse]
  simp only [bind, Except.bind]
  rcases parseLimit raw with _ | _
  · rfl
  rcases parseCursor env raw with _ | _
  · rfl
  simp only
  rcases parseSort raw (parseNear env raw).1 with _ | _
  · rfl
  · rfl

/-- The board reads a location as both searches do. -/
theorem parseNear_eq_locate :
    parseNear env raw =
      locate env
        (fun lat lon radius => ⟨lat, lon, clamp (radius.getD defaultRadiusM) 1 maxRadiusM⟩)
        raw.lat raw.lon raw.radiusM := rfl

/-- Without its unusable filters, a query string has the same location. -/
theorem parseNear_unfiltered : (parseNear env (raw.unfiltered env)).1 = (parseNear env raw).1 := by
  rcases h : (parseNear env raw).1 with _ | n
  · have hno : (parseNear env raw).1.isSome = false := by rw [h]; rfl
    rw [parseNear_eq_locate, RawQuery.unfiltered, hno]
    rfl
  · have hsome : (parseNear env raw).1.isSome = true := by rw [h]; rfl
    rw [parseNear_eq_locate, RawQuery.unfiltered, hsome]
    exact h

/-- **No unusable filter fails the request**: what fails, fails without its filters too. -/
theorem resolve_unfiltered {e : AppError} (h : resolve env vocabulary raw = .error e) :
    resolve env vocabulary (raw.unfiltered env) = .error e := by
  rw [resolve, bind_pure_eq_error_iff, parse_error] at h ⊢
  rw [parseNear_unfiltered]
  exact h

/-- An optional parameter is applied or named. -/
theorem optional_accounted {α : Type} (name : String) (value : Option Text)
    (read : Text → Option α) :
    Accounted value
      (∃ v ∈ present value, ∃ a, read v = some a ∧ (optional name value read).1 = some a)
      name.toList (optional name value read).2 := by
  rcases hp : present value with _ | v
  · exact Or.inl hp
  rcases ha : read v with _ | a
  · exact .of_mem (by simp [optional, hp, ha])
  · exact .of_applied ⟨v, rfl, a, ha, by simp [optional, hp, ha]⟩

/-- An optional parameter is dropped under its own name. -/
theorem mem_optional {α : Type} {name : String} {value : Option Text} {read : Text → Option α}
    {n : Text} (h : n ∈ (optional name value read).2) : n = name.toList := by
  rw [optional] at h
  split at h
  · exact absurd h (by simp)
  · split at h
    · exact absurd h (by simp)
    · exact List.mem_singleton.mp h

/-- A value that is read is the outcome. -/
theorem ok_of_toOption {ε α : Type} {x : Except ε α} {a : α} (h : x.toOption = some a) :
    x = .ok a := by
  rcases x with _ | b
  · exact absurd h (by simp [Except.toOption])
  · exact congrArg Except.ok (Option.some.inj h)

/-- A floor under the budget is a number of cents. -/
theorem parseBudgetMin_eq {value : Text} {cents : ℕ} (h : parseBudgetMin value = some cents) :
    parseI64 value = some (cents : ℤ) := by
  rw [parseBudgetMin] at h
  split at h
  next c hc =>
    split at h
    next hpos =>
      obtain rfl := Option.some.inj h
      rw [hc, Int.toNat_of_nonneg hpos]
    next => exact absurd h (by simp)
  next => exact absurd h (by simp)

/-- A ZIP code is what the parameter says. -/
theorem parseZip_eq {value zip : Text} (h : parseZip value = some zip) : zip = value := by
  rw [parseZip] at h
  split at h
  · exact (Option.some.inj h).symm
  · exact absurd h (by simp)

/-- Everything that is dropped is a timeline, a build type, a budget, a ZIP code or a location,
and a location only where its parts say so. -/
theorem mem_ignored {query : JobQuery} {ids : List Uuid} (hparse : parse env raw ids = .ok query)
    {n : Text} (h : n ∈ query.ignored) :
    n = "timeline".toList ∨ n = "build_type".toList ∨ n = "budget_min".toList ∨ n = "zip".toList ∨
      n ∈ (parseNear env raw).2 := by
  rw [parse_ignored hparse] at h
  simp only [List.mem_append] at h
  rcases h with (((h | h) | h) | h) | h
  · exact Or.inl (mem_optional h)
  · exact Or.inr (Or.inl (mem_optional h))
  · exact Or.inr (Or.inr (Or.inl (mem_optional h)))
  · exact Or.inr (Or.inr (Or.inr (Or.inl (mem_optional h))))
  · exact Or.inr (Or.inr (Or.inr (Or.inr h)))

/-- A location is dropped under no other name. -/
theorem mem_parseNear {n : Text} (h : n ∈ (parseNear env raw).2) : n = locationName := by
  rw [parseNear] at h
  split at h
  · split at h
    · exact absurd h (by simp)
    · exact List.mem_singleton.mp h
  · exact absurd h (by simp)
  · exact List.mem_singleton.mp h

/-- **When the board drops no filter without a word.** -/
theorem noneDropped_iff {query : JobQuery} (h : resolve env vocabulary raw = .ok query) :
    NoneDropped env vocabulary raw query ↔ Readable env vocabulary raw := by
  obtain ⟨r, hparse, rfl⟩ := resolve_eq h
  obtain ⟨-, -, -, hfilters⟩ := parse_eq hparse
  have hlocation : locationName ∈ (parseNear env raw).2 ↔ locationName ∈ r.ignored := by
    constructor
    · intro hmem
      rw [parse_ignored hparse]
      exact List.mem_append_right _ hmem
    · intro hmem
      rcases mem_ignored hparse hmem with hn | hn | hn | hn | hn
      · exact absurd hn (by decide)
      · exact absurd hn (by decide)
      · exact absurd hn (by decide)
      · exact absurd hn (by decide)
      · exact hn
  -- the board has no name for a trade that it drops
  have htrade : "trade".toList ∉ r.ignored := by
    intro hmem
    rcases mem_ignored hparse hmem with hn | hn | hn | hn | hn
    · exact absurd hn (by decide)
    · exact absurd hn (by decide)
    · exact absurd hn (by decide)
    · exact absurd hn (by decide)
    · exact absurd (mem_parseNear hn) (by decide)
  have hnear : (Accounted raw.lat (∃ n ∈ (parseNear env raw).1, ∃ x ∈ parseF64 env raw.lat, n.lat = x)
        locationName (parseNear env raw).2 ∧
      Accounted raw.lon (∃ n ∈ (parseNear env raw).1, ∃ y ∈ parseF64 env raw.lon, n.lon = y)
        locationName (parseNear env raw).2 ∧
      Accounted raw.radiusM
        (∃ n ∈ (parseNear env raw).1, ∃ r ∈ parseF64 env raw.radiusM,
          n.radiusM = clamp r 1 maxRadiusM)
        locationName (parseNear env raw).2) ↔ LocationReadable env raw.lat raw.lon raw.radiusM :=
    locate_accounted_iff (fun _ _ _ => rfl) (fun _ _ _ => rfl) (fun _ _ _ => rfl)
  have hnearEq : (parseNear env raw).1 = r.filters.near := by rw [hfilters]
  rw [Accounted.congr_iff hlocation, Accounted.congr_iff hlocation, Accounted.congr_iff hlocation,
    hnearEq] at hnear
  constructor
  · intro hnone
    refine ⟨?_, hnear.mp ⟨hnone .lat, hnone .lon, hnone .radiusM⟩⟩
    rcases hnone .trade with hblank | happlied | hmem
    · exact Or.inl hblank
    · obtain ⟨list, -, ids, hids, -, hbound⟩ := happlied
      right
      intro hno
      have hfree : r.filters.tradeIds = none := by rw [hfilters, hno]; rfl
      rw [show r.filters.tradeIds = some ids from hbound] at hfree
      exact absurd hfree (by simp)
    · exact absurd hmem htrade
  · rintro ⟨hoffered, hlocated⟩ (_ | _ | _ | _ | _ | _ | _ | _ | _)
    · show Accounted raw.q (∃ text ∈ present raw.q, r.filters.query = some _) _ r.ignored
      rw [hfilters]
      exact queryText_accounted _ _ _
    · show Accounted raw.timeline (∃ value ∈ present raw.timeline, ∃ t,
        JobTimeline.parseRequest value = .ok t ∧ r.filters.timeline = some t) _ r.ignored
      rw [hfilters, parse_ignored hparse]
      refine (optional_accounted "timeline" raw.timeline parseTimeline).mono ?_ fun n hn => ?_
      · rintro ⟨value, hvalue, t, ht, happlied⟩
        exact ⟨value, hvalue, t, ok_of_toOption ht, happlied⟩
      · exact List.mem_append_left _ (List.mem_append_left _ (List.mem_append_left _
          (List.mem_append_left _ hn)))
    · show Accounted raw.buildType (∃ value ∈ present raw.buildType, ∃ b,
        BuildType.parseRequest value = .ok b ∧ r.filters.buildType = some b) _ r.ignored
      rw [hfilters, parse_ignored hparse]
      refine (optional_accounted "build_type" raw.buildType parseBuildType).mono ?_ fun n hn => ?_
      · rintro ⟨value, hvalue, b, hb, happlied⟩
        exact ⟨value, hvalue, b, ok_of_toOption hb, happlied⟩
      · exact List.mem_append_left _ (List.mem_append_left _ (List.mem_append_left _
          (List.mem_append_right _ hn)))
    · show Accounted raw.budgetMin (∃ value ∈ present raw.budgetMin, ∃ cents : ℕ,
        parseI64 value = some (cents : ℤ) ∧ r.filters.budgetMinCents = some cents) _ r.ignored
      rw [hfilters, parse_ignored hparse]
      refine (optional_accounted "budget_min" raw.budgetMin parseBudgetMin).mono ?_ fun n hn => ?_
      · rintro ⟨value, hvalue, cents, hcents, happlied⟩
        exact ⟨value, hvalue, cents, parseBudgetMin_eq hcents, happlied⟩
      · exact List.mem_append_left _ (List.mem_append_left _ (List.mem_append_right _ hn))
    · show Accounted raw.trade (∃ list ∈ present raw.trade, ∃ ids, ids ≠ [] ∧
        ids = tradeIdsForSlugs vocabulary (slugs list) ∧ r.filters.tradeIds = some ids) _ r.ignored
      rw [hfilters]
      rcases hp : present raw.trade with _ | list
      · exact Or.inl hp
      · rcases hoffered with hblank | hne
        · rw [hp] at hblank
          exact absurd hblank (by simp)
        · refine .of_applied ⟨list, rfl, rawTradeIds vocabulary raw, hne, ?_, ?_⟩
          · rw [rawTradeIds, hp]
          · exact if_neg (by simpa using hne)
    · show Accounted raw.zip (∃ zip ∈ present raw.zip, r.filters.postalCode = some zip) _ r.ignored
      rw [hfilters, parse_ignored hparse]
      refine (optional_accounted "zip" raw.zip parseZip).mono ?_ fun n hn => ?_
      · rintro ⟨value, hvalue, zip, hzip, happlied⟩
        exact ⟨value, hvalue, by rw [happlied, parseZip_eq hzip]⟩
      · exact List.mem_append_left _ (List.mem_append_right _ hn)
    · exact (hnear.mpr hlocated).1
    · exact (hnear.mpr hlocated).2.1
    · exact (hnear.mpr hlocated).2.2

end Marketplace.Board

namespace Marketplace.Search

variable {env : Env} {vocabulary : Vocabulary} {off : Text → Prop}

/-- **When no filter is dropped without a word**: a search is answered so exactly where the
query string is one whose unusable filters can be told, by the directory and by the board. No
unusable filter makes either of them fail. -/
theorem none_dropped_iff (raw : Directory.RawQuery) (board : Board.RawQuery) :
    ((∀ request, Directory.resolve env vocabulary raw = .ok request →
          (Directory.NoneDropped env vocabulary off raw request ↔
            Directory.Readable env off raw)) ∧
        ∀ e, Directory.resolve env vocabulary raw = .error e →
          Directory.resolve env vocabulary (raw.unfiltered env) = .error e) ∧
      (∀ query, Board.resolve env vocabulary board = .ok query →
          (Board.NoneDropped env vocabulary board query ↔ Board.Readable env vocabulary board)) ∧
        ∀ e, Board.resolve env vocabulary board = .error e →
          Board.resolve env vocabulary (board.unfiltered env) = .error e :=
  ⟨⟨fun _ h => Directory.noneDropped_iff h, fun _ h => Directory.resolve_unfiltered h⟩,
    fun _ h => Board.noneDropped_iff h, fun _ h => Board.resolve_unfiltered h⟩

/-! ### Filters that vanish -/

/-- Plumbers are offered, and nobody else. -/
def plumbers : Vocabulary := ⟨[(36, "c-36-plumbing".toList)], []⟩

/-- Asked for verified contractors around a ZIP code that is none, and for a job without a
sensible page, both searches account for all of it. -/
theorem none_dropped_iff_plumbing :
    (∀ request, Directory.resolve Env.plain plumbers
          { verified := some "true".toList, zip := some "900".toList } = .ok request →
        Directory.NoneDropped Env.plain plumbers (fun _ => False)
          { verified := some "true".toList, zip := some "900".toList } request) ∧
      (∀ query, Board.resolve Env.plain plumbers
          { trade := some "c-36-plumbing".toList, timeline := some "someday".toList } = .ok query →
        Board.NoneDropped Env.plain plumbers
          { trade := some "c-36-plumbing".toList, timeline := some "someday".toList } query) := by
  have hall := @none_dropped_iff Env.plain plumbers (fun _ => False)
    { verified := some "true".toList, zip := some "900".toList }
    { trade := some "c-36-plumbing".toList, timeline := some "someday".toList }
  refine ⟨fun request h => (hall.1.1 request h).mpr ⟨Or.inr (Or.inl (by decide)), ?_⟩,
    fun query h => (hall.2.1 query h).mpr ⟨Or.inr (by decide), ?_⟩⟩
  · exact ⟨fun _ _ _ => ⟨rfl, rfl, rfl⟩, fun _ _ => rfl⟩
  · exact ⟨fun _ _ _ => ⟨rfl, rfl, rfl⟩, fun _ _ => rfl⟩

/-- **Filters that vanish**: the board does not name a trade that nobody offers, and the
directory does not name a `verified` in capitals, nor a location without a number in it. -/
theorem filters_vanish :
    (∃ query, Board.resolve Env.plain plumbers { trade := some "banana".toList } = .ok query ∧
        query.filters.tradeIds = none ∧ query.ignored = [] ∧
        ¬ Board.NoneDropped Env.plain plumbers { trade := some "banana".toList } query) ∧
      ∃ request, Directory.resolve Env.plain plumbers
          { verified := some "TRUE".toList, lat := some "north".toList } = .ok request ∧
        request.filters.verifiedOnly = false ∧ request.filters.near = none ∧
        request.ignored = [] ∧
        ¬ Directory.NoneDropped Env.plain plumbers (fun _ => False)
          { verified := some "TRUE".toList, lat := some "north".toList } request := by
  refine ⟨⟨_, rfl, by decide, by decide, fun hnone => ?_⟩,
    ⟨_, rfl, by decide, by decide, by decide, fun hnone => ?_⟩⟩
  · rcases hnone .trade with hblank | ⟨list, -, ids, -, -, hids⟩ | hmem
    · exact absurd hblank (by decide)
    · have hfree : Board.boundTrades (Board.rawTradeIds plumbers
          { trade := some "banana".toList }) = none := by decide
      exact Option.some_ne_none ids (hids.symm.trans hfree)
    · exact absurd hmem (by decide)
  · rcases hnone .verified with hblank | (hon | ⟨-, -, -, hoff⟩) | hmem
    · exact absurd hblank (by decide)
    · exact absurd hon (by decide)
    · exact hoff
    · exact absurd hmem (by decide)

end Marketplace.Search
