import Marketplace.Enrichment.Batches

/-!
# What a place scores, and who gets it

A place scores by its name, its city, its state and its category
(`Marketplace.Enrichment.scoreMatch`), and is rejected when it scores too little, and also when it
is in another state or has another name, whatever else it scores.

So a pair that is rejected may score more than one that is not, and the pairing goes by the score
alone: in some batch the rejected pair takes a place or a contractor from the other
(`Marketplace.Enrichment.pairing_iff`). Only those that are rejected for their state or their name
can do so (`Marketplace.Enrichment.undeprived_scoreMatch_iff`).
-/

namespace Marketplace.Enrichment

/-! ### Scoring -/

/-- What an address says. -/
structure ParsedAddress where
  city : Option Text := none
  state : Option Text := none
  postalCode : Option Text := none
  deriving DecidableEq

/-- **How names and addresses are compared.** -/
structure Comparison where
  /-- `name_similarity`. -/
  nameSimilarity : Text → Text → ℚ
  /-- `normalise_name`. -/
  normaliseName : Text → Text
  /-- `parse_address`. -/
  parseAddress : Option Text → ParsedAddress
  /-- `_normalise_city`. -/
  normaliseCity : Option Text → Text
  /-- `str.lower`. -/
  lower : Text → Text
  /-- Rounding to four places. -/
  round : ℚ → ℚ

/-- `CONFIRM_AT`. -/
def confirmAt : ℚ := 75 / 100

/-- `NEEDS_REVIEW_AT`. -/
def needsReviewAt : ℚ := 50 / 100

/-- `NAME_FLOOR`. -/
def nameFloor : ℚ := 35 / 100

/-- `WEIGHT_NAME`. -/
def weightName : ℚ := 4 / 10

/-- `WEIGHT_CITY`. -/
def weightCity : ℚ := 3 / 10

/-- `WEIGHT_STATE`. -/
def weightState : ℚ := 2 / 10

/-- `WEIGHT_CATEGORY`. -/
def weightCategory : ℚ := 1 / 10

/-- `TRADE_KEYWORDS`. -/
def tradeKeywords : List String :=
  ["plumb", "electric", "roof", "paint", "landscap", "contractor", "construction", "builder",
    "hvac", "heating", "air conditioning", "remodel", "renovat", "carpent", "concrete", "mason",
    "handyman", "flooring", "drywall", "fence", "solar", "pool", "tile", "window", "door",
    "garage door", "septic", "well drilling", "insulation", "gutter", "sheet metal", "welding",
    "excavat", "pav", "demolition", "restoration", "waterproof", "cabinet", "glass", "sign",
    "elevator", "fire protection", "lock", "tree service", "swimming pool"]

section Score

variable (env : Comparison) (c : Contractor) (p : Place)

/-- `category_plausible`. -/
def categoryPlausible : Option Text → Bool
  | none => false
  | some category =>
    !category.isEmpty && tradeKeywords.any fun k => decide (k.toList <:+: env.lower category)

/-- How much alike the names are. -/
def nameOf : ℚ := env.nameSimilarity c.displayName p.placeName

/-- The place is in the state. -/
def stateOk : Bool := (env.parseAddress p.placeAddress).state = some "CA".toList

/-- The place is in the city of the contractor. -/
def cityOk : Bool :=
  env.normaliseCity (some c.city) ≠ [] ∧
    env.normaliseCity (some c.city) = env.normaliseCity (env.parseAddress p.placeAddress).city

/-- One for what holds. -/
def indicator (b : Bool) : ℚ := if b then 1 else 0

/-- The weighted sum. -/
def total : ℚ :=
  env.round (nameOf env c p * weightName + indicator (cityOk env c p) * weightCity +
    indicator (stateOk env p) * weightState +
      indicator (categoryPlausible env p.placeCategory) * weightCategory)

/-- The status of a score: a place in another state or with another name is rejected. -/
def statusOf : MatchStatus :=
  if stateOk env p = false then .rejected
  else if nameOf env c p < nameFloor then .rejected
  else if confirmAt ≤ total env c p then .confirmed
  else if needsReviewAt ≤ total env c p then .needsReview
  else .rejected

/-- **`score_match`**: what a place scores for a contractor. -/
def scoreMatch : MatchResult where
  status := statusOf env c p
  score := total env c p
  components := ⟨some (env.round (nameOf env c p)), some (env.normaliseName p.placeName)⟩

/-- The place is of another state, or of another name. -/
def OutOfPlace : Prop := stateOk env p = false ∨ nameOf env c p < nameFloor

variable {env c p}

/-- What is neither of another state nor of another name is rejected for its score. -/
theorem statusOf_eq_rejected_iff :
    statusOf env c p = .rejected ↔ OutOfPlace env c p ∨ total env c p < needsReviewAt := by
  rw [statusOf, OutOfPlace]
  by_cases hstate : stateOk env p = false
  · simp [hstate]
  by_cases hname : nameOf env c p < nameFloor
  · simp [hname]
  have hthresholds : needsReviewAt ≤ confirmAt := by decide +kernel
  by_cases hconfirm : confirmAt ≤ total env c p
  · simp [hstate, hname, hconfirm, hthresholds.trans hconfirm]
  by_cases hreview : needsReviewAt ≤ total env c p
  · simp [hstate, hname, hconfirm, hreview]
  · simp [hconfirm, hreview, not_le.mp hreview]

end Score

/-! ### What is taken away -/

/-- Candidates that cannot both be paired: for one place, or for one contractor. -/
def Rivals (x y : Candidate) : Prop :=
  x.place = y.place ∧ x.contractorId ≠ y.contractorId ∨
    x.contractor = y.contractor ∧ x.placeId ≠ y.placeId

section Taken

variable (score : Contractor → Place → MatchResult)

/-- A candidate of some contractors and some places. -/
def IsCandidate (contractors : Set Contractor) (places : Set Place) (x : Candidate) : Prop :=
  x.contractor ∈ contractors ∧ x.place ∈ places ∧ x.result = score x.contractor x.place

/-- **A batch of some contractors, with some places**, each of them once. -/
structure Drawn (contractors : Set Contractor) (places : Set Place) (batch : List Contractor)
    (found : List Place) : Prop where
  batch_mem : ∀ c ∈ batch, c ∈ contractors
  found_mem : ∀ p ∈ found, p ∈ places
  batch_key : (batch.map Contractor.id).Nodup
  found_key : (found.map Place.placeId).Nodup

/-- What would be paired if the rejected candidates were not there. -/
def unrejectedPairing (batch : List Contractor) (found : List Place) : List Candidate :=
  Matching.greedy Candidate.placeId Candidate.contractorId
    ((bestFirst (scored score batch found)).filter Candidate.accepted)

/-- **A rejected pair takes something away**: it has the place or the contractor of a candidate that
is not rejected and would be paired without it. -/
def Deprives (batch : List Contractor) (found : List Place) (x y : Candidate) : Prop :=
  x ∈ pairPlacesToContractors score batch found ∧ x.accepted = false ∧
    y ∈ unrejectedPairing score batch found ∧
      (x.placeId = y.placeId ∨ x.contractorId = y.contractorId)

/-- **Places are paired well**: one contractor for a place, one place for a contractor, and nothing
is taken away by what is rejected. -/
structure PairedWell (batch : List Contractor) (found : List Place) : Prop where
  place_once : ((pairPlacesToContractors score batch found).map Candidate.placeId).Nodup
  contractor_once : ((pairPlacesToContractors score batch found).map Candidate.contractorId).Nodup
  undeprived : ∀ x y, ¬ Deprives score batch found x y

variable {score}

/-- What is not rejected of the pairing is what would be paired without the rejected, if these score
less than what they have a side in common with. -/
theorem filter_pairPlacesToContractors {batch : List Contractor} {found : List Place}
    (hless : ∀ x ∈ scored score batch found, ∀ y ∈ scored score batch found,
      x.accepted = false → y.accepted = true →
        x.placeId = y.placeId ∨ x.contractorId = y.contractorId → x.result.score < y.result.score) :
    (pairPlacesToContractors score batch found).filter Candidate.accepted =
      unrejectedPairing score batch found := by
  refine Matching.filter_greedyFrom (fun _ _ _ => Iff.rfl) (fun _ _ _ => Iff.rfl) ?_
  refine (pairwise_bestFirst _).imp_of_mem fun {x y} hx hy hle hrejected haccepted => ?_
  have hnot := fun hside => not_lt.mpr hle
    (hless x (mem_bestFirst.mp hx) y (mem_bestFirst.mp hy) hrejected haccepted hside)
  exact ⟨fun hplace => hnot (.inl hplace), fun hcontractor => hnot (.inr hcontractor)⟩

/-- Two candidates of which the first is in front and the second is its rival: the first is paired,
and the second would be if the first were not there. -/
theorem deprives_of_scored {batch : List Contractor} {found : List Place} {x y : Candidate}
    (hscored : scored score batch found = [x, y]) (hle : y.result.score ≤ x.result.score)
    (hside : x.placeId = y.placeId ∨ x.contractorId = y.contractorId)
    (hrejected : x.accepted = false) (haccepted : y.accepted = true) :
    Deprives score batch found x y := by
  have hsort : bestFirst (scored score batch found) = [x, y] := by
    rw [hscored, bestFirst]
    simp only [List.insertionSort_cons, List.insertionSort_nil, List.orderedInsert, if_pos hle]
  have hkept : (bestFirst (scored score batch found)).filter Candidate.accepted = [y] := by
    rw [hsort, List.filter_cons_of_neg (by rw [hrejected]; exact Bool.false_ne_true),
      List.filter_cons_of_pos haccepted, List.filter_nil]
  refine ⟨?_, hrejected, ?_, hside⟩
  · rw [pairPlacesToContractors, hsort, Matching.greedy, Matching.greedyFrom, if_neg (by simp)]
    exact List.mem_cons_self
  · rw [unrejectedPairing, hkept, Matching.greedy, Matching.greedyFrom, if_neg (by simp)]
    exact List.mem_cons_self

/-- A rejected candidate that scores as much as a rival takes something from it, in a batch of the
two. -/
theorem exists_deprives {contractors : Set Contractor} {places : Set Place} {x y : Candidate}
    (hx : IsCandidate score contractors places x) (hy : IsCandidate score contractors places y)
    (hrivals : Rivals x y) (hrejected : x.accepted = false) (haccepted : y.accepted = true)
    (hle : y.result.score ≤ x.result.score) :
    ∃ batch found, Drawn contractors places batch found ∧ Deprives score batch found x y := by
  obtain ⟨p, c, r⟩ := x
  obtain ⟨p', c', r'⟩ := y
  obtain ⟨hc, hp, hr⟩ : c ∈ contractors ∧ p ∈ places ∧ r = score c p := hx
  obtain ⟨hc', hp', hr'⟩ : c' ∈ contractors ∧ p' ∈ places ∧ r' = score c' p' := hy
  subst hr hr'
  rcases hrivals with ⟨hplace, hids⟩ | ⟨hcontractor, hids⟩
  · obtain rfl : p = p' := hplace
    have hids : c.id ≠ c'.id := hids
    refine ⟨[c, c'], [p], ⟨?_, ?_, ?_, ?_⟩,
      deprives_of_scored rfl hle (.inl rfl) hrejected haccepted⟩
    · simp [hc, hc']
    · simp [hp]
    · simp [hids]
    · simp
  · obtain rfl : c = c' := hcontractor
    have hids : p.placeId ≠ p'.placeId := hids
    refine ⟨[c], [p, p'], ⟨?_, ?_, ?_, ?_⟩,
      deprives_of_scored rfl hle (.inr rfl) hrejected haccepted⟩
    · simp [hc]
    · simp [hp, hp']
    · simp
    · simp [hids]

/-- In a batch in which each is once, candidates with a side in common are rivals, or one. -/
theorem Drawn.rivals {contractors : Set Contractor} {places : Set Place} {batch : List Contractor}
    {found : List Place} (h : Drawn contractors places batch found) {x y : Candidate}
    (hx : x ∈ scored score batch found) (hy : y ∈ scored score batch found)
    (hside : x.placeId = y.placeId ∨ x.contractorId = y.contractorId) :
    Rivals x y ∨ x.result = y.result := by
  obtain ⟨hxp, hxc, hxr⟩ := mem_scored.mp hx
  obtain ⟨hyp, hyc, hyr⟩ := mem_scored.mp hy
  have hplace (heq : x.placeId = y.placeId) : x.place = y.place :=
    List.inj_on_of_nodup_map h.found_key hxp hyp heq
  have hcontractor (heq : x.contractorId = y.contractorId) : x.contractor = y.contractor :=
    List.inj_on_of_nodup_map h.batch_key hxc hyc heq
  by_cases hp : x.placeId = y.placeId
  · by_cases hc : x.contractorId = y.contractorId
    · exact .inr (by rw [hxr, hyr, hplace hp, hcontractor hc])
    · exact .inl (.inl ⟨hplace hp, hc⟩)
  · exact .inl (.inr ⟨hcontractor (hside.resolve_left hp), hp⟩)

/-- Candidates of one batch that have the same result are accepted alike. -/
theorem accepted_congr {x y : Candidate} (h : x.result = y.result) : x.accepted = y.accepted := by
  rw [Candidate.accepted, Candidate.accepted, h]

/-- Where what is rejected scores less than its rivals, nothing is taken away. -/
theorem Drawn.pairedWell {contractors : Set Contractor} {places : Set Place}
    {batch : List Contractor} {found : List Place} (h : Drawn contractors places batch found)
    (hless : ∀ x y, IsCandidate score contractors places x → IsCandidate score contractors places y →
      Rivals x y → x.accepted = false → y.accepted = true → x.result.score < y.result.score) :
    PairedWell score batch found := by
  have hnodup : ((pairPlacesToContractors score batch found).map Candidate.placeId).Nodup ∧
      ((pairPlacesToContractors score batch found).map Candidate.contractorId).Nodup :=
    Matching.nodup_greedyFrom
  refine ⟨hnodup.1, hnodup.2, ?_⟩
  have hcandidate {x : Candidate} (hx : x ∈ scored score batch found) :
      IsCandidate score contractors places x :=
    ⟨h.batch_mem _ (mem_scored.mp hx).2.1, h.found_mem _ (mem_scored.mp hx).1,
      (mem_scored.mp hx).2.2⟩
  have hkept : (pairPlacesToContractors score batch found).filter Candidate.accepted =
      unrejectedPairing score batch found := by
    refine filter_pairPlacesToContractors fun x hx y hy hrejected haccepted hside => ?_
    rcases h.rivals hx hy hside with hrivals | hsame
    · exact hless x y (hcandidate hx) (hcandidate hy) hrivals hrejected haccepted
    · rw [accepted_congr hsame, haccepted] at hrejected
      exact absurd hrejected (by decide)
  rintro x y ⟨hx, hrejected, hy, hside⟩
  -- the other is paired too, so they have no side in common
  rw [← hkept, List.mem_filter] at hy
  have hsame : x = y := by
    rcases hside with hplace | hcontractor
    · exact List.inj_on_of_nodup_map hnodup.1 hx hy.1 hplace
    · exact List.inj_on_of_nodup_map hnodup.2 hx hy.1 hcontractor
  rw [hsame, hy.2] at hrejected
  exact absurd hrejected (by decide)

/-- **When places are paired well**: in every batch of some contractors and some places a place gets
one contractor and a contractor one place, and nothing is taken away by what is rejected, exactly if
what is rejected scores less than every rival that is not. -/
theorem pairing_iff (score : Contractor → Place → MatchResult) (contractors : Set Contractor)
    (places : Set Place) :
    (∀ batch found, Drawn contractors places batch found → PairedWell score batch found) ↔
      ∀ x y, IsCandidate score contractors places x → IsCandidate score contractors places y →
        Rivals x y → x.accepted = false → y.accepted = true → x.result.score < y.result.score := by
  constructor
  · intro hwell x y hx hy hrivals hrejected haccepted
    by_contra hnot
    obtain ⟨batch, found, hdrawn, hdeprives⟩ :=
      exists_deprives hx hy hrivals hrejected haccepted (not_lt.mp hnot)
    exact (hwell batch found hdrawn).undeprived x y hdeprives
  · intro hless batch found hdrawn
    exact hdrawn.pairedWell hless

/-- **What is rejected for its score alone takes nothing away**: with the scores of `scoreMatch` the
rivals to be looked at are those of another state or another name. -/
theorem undeprived_scoreMatch_iff (env : Comparison) (contractors : Set Contractor)
    (places : Set Place) :
    (∀ batch found, Drawn contractors places batch found →
      PairedWell (scoreMatch env) batch found) ↔
      ∀ x y, IsCandidate (scoreMatch env) contractors places x →
        IsCandidate (scoreMatch env) contractors places y → Rivals x y →
          OutOfPlace env x.contractor x.place → y.accepted = true →
            x.result.score < y.result.score := by
  rw [pairing_iff]
  have hrejected_iff {x : Candidate} (hx : IsCandidate (scoreMatch env) contractors places x) :
      x.accepted = false ↔ OutOfPlace env x.contractor x.place ∨ x.result.score < needsReviewAt := by
    rw [Candidate.accepted, hx.2.2, decide_eq_false_iff_not, not_not]
    exact statusOf_eq_rejected_iff
  refine forall₅_congr fun x y hx hy hrivals => ?_
  constructor
  · intro hless hout haccepted
    exact hless ((hrejected_iff hx).mpr (.inl hout)) haccepted
  · intro hless hrejected haccepted
    rcases (hrejected_iff hx).mp hrejected with hout | hlow
    · exact hless hout haccepted
    · -- what is not rejected has a score that is high enough
      have hhigh : ¬ y.result.score < needsReviewAt := fun hlow' => by
        rw [(hrejected_iff hy).mpr (.inr hlow')] at haccepted
        exact Bool.false_ne_true haccepted
      exact hlow.trans_le (not_lt.mp hhigh)

/-! ### A namesake in another state -/

/-- A comparison that looks for equal names and writes addresses as a city and a state. -/
def Comparison.plain : Comparison where
  nameSimilarity := fun a b => if a = b then 1 else 0
  normaliseName := id
  parseAddress := fun address =>
    match address.bind (splitOnce ',') with
    | none => {}
    | some (city, state) => { city := some city, state := some (trim state) }
  normaliseCity := fun city => (city.getD []).map Char.toLower
  lower := List.map Char.toLower
  round := id

/-- A roofer in Glendale, of California. -/
def roofer : Contractor where
  id := 1
  displayName := "Sunrise Roofing".toList
  city := "Glendale".toList
  licenseNo := "900001".toList

/-- A namesake in Glendale, of Arizona. -/
def namesake : Place where
  placeId := "arizona".toList
  placeName := "Sunrise Roofing".toList
  placeAddress := some "Glendale, AZ".toList
  placeCategory := some "Roofing contractor".toList

/-- The roofer, whose shop is in the next city. -/
def shop : Place where
  placeId := "burbank".toList
  placeName := "Sunrise Roofing".toList
  placeAddress := some "Burbank, CA".toList
  placeCategory := some "Roofing contractor".toList

/-- **A namesake in another state takes the contractor**: it is rejected at 0.8, and the place of
the contractor, which would be left for review at 0.7, is not paired. -/
theorem pairing_namesake :
    (scoreMatch Comparison.plain roofer namesake).status = .rejected ∧
      (scoreMatch Comparison.plain roofer shop).status = .needsReview ∧
      (pairPlacesToContractors (scoreMatch Comparison.plain) [roofer] [namesake, shop]).map
        Candidate.placeId = [namesake.placeId] ∧
      ¬ PairedWell (scoreMatch Comparison.plain) [roofer] [namesake, shop] := by
  refine ⟨by decide +kernel, by decide +kernel, by decide +kernel, fun hwell => ?_⟩
  refine hwell.undeprived ⟨namesake, roofer, _⟩ ⟨shop, roofer, _⟩ (deprives_of_scored rfl ?_ ?_ ?_ ?_)
  · decide +kernel
  · exact .inr rfl
  · decide +kernel
  · decide +kernel

end Taken

end Marketplace.Enrichment
