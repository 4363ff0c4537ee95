import Mathlib.Analysis.SpecialFunctions.Log.Basic
import Mathlib.Data.Option.Basic

/-!
# How good a listing looks

The score of a listing is a mean of what speaks for it: its rating, the number of its reviews, its
badge, its claim, and how much of its page is filled in
(`Marketplace.Quality.score`). It is a fraction, and nothing that a listing gains lowers it
(`Marketplace.Quality.score_sound`).

The rating is pulled toward the mean of the directory by how few reviews there are. So the number of
reviews counts twice: a review always raises the volume, and moves the rating toward the listing's
own, which may be lower. More reviews never lower the score of a listing exactly if its rating is
not below the mean, or does not count (`Marketplace.Quality.score_monotone_iff`).
-/

namespace Marketplace.Quality

/-! ### What a score is made of -/

/-- How much each reason counts. -/
structure Weights where
  rating : NNReal
  reviews : NNReal
  verified : NNReal
  claimed : NNReal
  completeness : NNReal

/-- The sum of the weights. -/
noncomputable def Weights.total (w : Weights) : ℝ :=
  w.rating + w.reviews + w.verified + w.claimed + w.completeness

/-- `Weights::default`. -/
noncomputable def Weights.default : Weights where
  rating := 40 / 100
  reviews := 25 / 100
  verified := 20 / 100
  claimed := 5 / 100
  completeness := 10 / 100

/-- What the directory knows about a listing. -/
structure Signals where
  rating : Option ℝ := none
  reviewCount : Option ℤ := none
  verified : Bool := false
  claimed : Bool := false
  hasBio : Bool := false
  hasPhoto : Bool := false
  hasPhone : Bool := false
  hasWebsite : Bool := false

/-- `REVIEW_PRIOR`. -/
def reviewPrior : ℝ := 10

/-- `REVIEW_SATURATION`. -/
def reviewSaturation : ℝ := 500

/-- `clamp(0.0, 1.0)`. -/
noncomputable def clamp (x : ℝ) : ℝ := max 0 (min x 1)

/-- One for what holds. -/
noncomputable def indicator (b : Bool) : ℝ := if b then 1 else 0

namespace Signals

variable (s : Signals) (meanRating : ℝ)

/-- How many fields of the page are filled in. -/
def filled : ℕ := ([s.hasBio, s.hasPhoto, s.hasPhone, s.hasWebsite].filter id).length

/-- `Signals::completeness`: the fraction of the page that is filled in. -/
noncomputable def completeness : ℝ := s.filled / 4

/-- The number of reviews. -/
def count : ℝ := (max (s.reviewCount.getD 0) 0 : ℤ)

/-- The rating, which is the mean when there is none. -/
def observed : ℝ := s.rating.getD meanRating

/-- The rating, pulled toward the mean by how little evidence there is for it. -/
noncomputable def adjusted : ℝ :=
  (reviewPrior * meanRating + s.observed meanRating * s.count) / (reviewPrior + s.count)

/-- What the rating is worth: ratings run from one to five. -/
noncomputable def ratingTerm : ℝ := clamp ((s.adjusted meanRating - 1) / 4)

/-- What the number of reviews is worth. -/
noncomputable def reviewsTerm : ℝ :=
  clamp (Real.log (s.count + 1) / Real.log (reviewSaturation + 1))

/-- The weighted sum. -/
noncomputable def blended (w : Weights) : ℝ :=
  w.rating * s.ratingTerm meanRating + w.reviews * s.reviewsTerm +
    w.verified * indicator s.verified + w.claimed * indicator s.claimed +
      w.completeness * s.completeness

end Signals

/-- **`score`**: a listing, given the mean rating of the directory. -/
noncomputable def score (s : Signals) (meanRating : ℝ) (w : Weights) : ℝ :=
  if w.total ≤ 0 then 0 else clamp (s.blended meanRating w / w.total)

/-! ### Fractions -/

theorem clamp_nonneg (x : ℝ) : 0 ≤ clamp x := le_max_left _ _

theorem clamp_le_one (x : ℝ) : clamp x ≤ 1 := max_le zero_le_one (min_le_right _ _)

theorem clamp_mono {x y : ℝ} (h : x ≤ y) : clamp x ≤ clamp y :=
  max_le_max le_rfl (min_le_min h le_rfl)

/-- What lies between is left alone. -/
theorem clamp_of_mem {x : ℝ} (h0 : 0 ≤ x) (h1 : x ≤ 1) : clamp x = x := by
  rw [clamp, min_eq_left h1, max_eq_right h0]

theorem clamp_of_one_le {x : ℝ} (h : 1 ≤ x) : clamp x = 1 := by
  rw [clamp, min_eq_right h, max_eq_right zero_le_one]

theorem indicator_mono {b b' : Bool} (h : b ≤ b') : indicator b ≤ indicator b' := by
  cases b with
  | false => cases b' <;> simp [indicator]
  | true => rw [h rfl]

section Score

variable {s s' : Signals} {meanRating : ℝ} {w : Weights}

theorem Signals.count_nonneg : 0 ≤ s.count := by
  rw [Signals.count]
  exact_mod_cast le_max_right _ _

theorem prior_add_count_pos : 0 < reviewPrior + s.count := by
  have hcount : 0 ≤ s.count := s.count_nonneg
  rw [reviewPrior]
  linarith

theorem Weights.total_nonneg : 0 ≤ w.total := by
  rw [Weights.total]
  positivity

/-- **A score is a fraction.** -/
theorem score_mem : 0 ≤ score s meanRating w ∧ score s meanRating w ≤ 1 := by
  rw [score]
  split
  · exact ⟨le_rfl, zero_le_one⟩
  · exact ⟨clamp_nonneg _, clamp_le_one _⟩

/-- **A score goes up with the weighted sum.** -/
theorem score_mono (h : s.blended meanRating w ≤ s'.blended meanRating w) :
    score s meanRating w ≤ score s' meanRating w := by
  rw [score, score]
  split
  · exact le_rfl
  · exact clamp_mono (div_le_div_of_nonneg_right h Weights.total_nonneg)

/-! ### What a listing gains -/

/-- **A listing gains**: its rating rises, it gets its badge or its owner, or more of its page is
filled in, and nothing else changes. -/
structure Gains (s s' : Signals) : Prop where
  rating : Option.Rel (· ≤ ·) s.rating s'.rating
  reviewCount : s'.reviewCount = s.reviewCount
  verified : s.verified ≤ s'.verified
  claimed : s.claimed ≤ s'.claimed
  hasBio : s.hasBio ≤ s'.hasBio
  hasPhoto : s.hasPhoto ≤ s'.hasPhoto
  hasPhone : s.hasPhone ≤ s'.hasPhone
  hasWebsite : s.hasWebsite ≤ s'.hasWebsite

theorem Gains.count_eq (h : Gains s s') : s'.count = s.count := by
  rw [Signals.count, h.reviewCount, Signals.count]

theorem Gains.observed_le (h : Gains s s') : s.observed meanRating ≤ s'.observed meanRating := by
  have hrating := h.rating
  rw [Signals.observed, Signals.observed]
  generalize s.rating = rating at hrating ⊢
  generalize s'.rating = rating' at hrating ⊢
  cases hrating with
  | some hle => exact hle
  | none => exact le_rfl

/-- A rating that rises is worth more. -/
theorem Gains.ratingTerm_le (h : Gains s s') : s.ratingTerm meanRating ≤ s'.ratingTerm meanRating := by
  have hadjusted : s.adjusted meanRating ≤ s'.adjusted meanRating := by
    rw [Signals.adjusted, Signals.adjusted, h.count_eq]
    refine div_le_div_of_nonneg_right ?_ prior_add_count_pos.le
    exact add_le_add le_rfl (mul_le_mul_of_nonneg_right h.observed_le s.count_nonneg)
  exact clamp_mono (div_le_div_of_nonneg_right (sub_le_sub_right hadjusted 1) (by norm_num))

/-- More of the page is filled in. -/
theorem Gains.completeness_le (h : Gains s s') : s.completeness ≤ s'.completeness := by
  have hfilled : s.filled ≤ s'.filled := by
    have hsum (s : Signals) : s.filled =
        s.hasBio.toNat + s.hasPhoto.toNat + s.hasPhone.toNat + s.hasWebsite.toNat := by
      obtain ⟨_, _, _, _, bio, photo, phone, website⟩ := s
      cases bio <;> cases photo <;> cases phone <;> cases website <;> rfl
    rw [hsum, hsum]
    have hbio := Bool.toNat_le_toNat h.hasBio
    have hphoto := Bool.toNat_le_toNat h.hasPhoto
    have hphone := Bool.toNat_le_toNat h.hasPhone
    have hwebsite := Bool.toNat_le_toNat h.hasWebsite
    omega
  exact div_le_div_of_nonneg_right (Nat.cast_le.mpr hfilled) (by norm_num)

/-- What a listing gains raises the weighted sum. -/
theorem Gains.blended_le (h : Gains s s') : s.blended meanRating w ≤ s'.blended meanRating w := by
  have hreviews : s'.reviewsTerm = s.reviewsTerm := by
    rw [Signals.reviewsTerm, h.count_eq, Signals.reviewsTerm]
  rw [Signals.blended, Signals.blended, hreviews]
  gcongr
  · exact h.ratingTerm_le
  · exact indicator_mono h.verified
  · exact indicator_mono h.claimed
  · exact h.completeness_le

/-- A listing without a rating has the weighted sum of one that is rated at the mean. -/
theorem blended_of_unrated (h : s.rating = none) :
    s.blended meanRating w = { s with rating := some meanRating }.blended meanRating w := by
  have hobserved :
      s.observed meanRating = { s with rating := some meanRating }.observed meanRating := by
    rw [Signals.observed, h]
    rfl
  rw [Signals.blended, Signals.ratingTerm, Signals.adjusted, hobserved]
  rfl

/-- **Scores are sound**: a score is a fraction, nothing that a listing gains lowers it, and a
listing without a rating scores as one that is rated at the mean. -/
theorem score_sound (w : Weights) (meanRating : ℝ) :
    (∀ s, 0 ≤ score s meanRating w ∧ score s meanRating w ≤ 1) ∧
      (∀ s s', Gains s s' → score s meanRating w ≤ score s' meanRating w) ∧
        ∀ s, s.rating = none →
          score s meanRating w = score { s with rating := some meanRating } meanRating w := by
  refine ⟨fun s => score_mem, fun s s' h => score_mono h.blended_le, fun s h => ?_⟩
  rw [score, score, blended_of_unrated h]

/-- A listing that gets a badge. -/
theorem score_sound_verified :
    score {} 3 .default ≤ score { verified := true } 3 .default := by
  refine (score_sound .default 3).2.1 {} { verified := true } ⟨.none, rfl, ?_, ?_, ?_, ?_, ?_, ?_⟩ <;>
    decide

/-! ### More reviews -/

/-- The weighted sum is a part of the sum of the weights. -/
theorem blended_mem : 0 ≤ s.blended meanRating w ∧ s.blended meanRating w ≤ w.total := by
  have hfraction {a x : ℝ} (ha : 0 ≤ a) (h : 0 ≤ x ∧ x ≤ 1) : 0 ≤ a * x ∧ a * x ≤ a :=
    ⟨mul_nonneg ha h.1, mul_le_of_le_one_right ha h.2⟩
  have hindicator (b : Bool) : 0 ≤ indicator b ∧ indicator b ≤ 1 := by
    cases b <;> simp [indicator]
  have hfilled : s.filled ≤ 4 := List.length_filter_le _ _
  have hcompleteness : 0 ≤ s.completeness ∧ s.completeness ≤ 1 := by
    rw [Signals.completeness]
    exact ⟨by positivity, div_le_one_of_le₀ (by exact_mod_cast hfilled) (by norm_num)⟩
  have hrating := hfraction w.rating.2
    (show 0 ≤ s.ratingTerm meanRating ∧ s.ratingTerm meanRating ≤ 1 from
      ⟨clamp_nonneg _, clamp_le_one _⟩)
  have hreviews := hfraction w.reviews.2
    (show 0 ≤ s.reviewsTerm ∧ s.reviewsTerm ≤ 1 from ⟨clamp_nonneg _, clamp_le_one _⟩)
  have hverified := hfraction w.verified.2 (hindicator s.verified)
  have hclaimed := hfraction w.claimed.2 (hindicator s.claimed)
  have hpage := hfraction w.completeness.2 hcompleteness
  simp only [NNReal.val_eq_coe] at hrating hreviews hverified hclaimed hpage
  rw [Signals.blended, Weights.total]
  constructor <;> linarith

/-- With some weight, a score is the fraction that the weighted sum is. -/
theorem score_eq (hw : 0 < w.total) : score s meanRating w = s.blended meanRating w / w.total := by
  obtain ⟨h0, h1⟩ := @blended_mem s meanRating w
  rw [score, if_neg (not_le.mpr hw),
    clamp_of_mem (div_nonneg h0 hw.le) (div_le_one_of_le₀ h1 hw.le)]

/-- The listing with a number of reviews. -/
def Signals.reviewed (s : Signals) (n : ℤ) : Signals := { s with reviewCount := some n }

variable {m n : ℤ}

theorem count_reviewed_of_nonneg (h : 0 ≤ n) : (s.reviewed n).count = n := by
  rw [Signals.count, Signals.reviewed, Option.getD_some, max_eq_left h]

theorem count_reviewed_mono (h : m ≤ n) : (s.reviewed m).count ≤ (s.reviewed n).count :=
  Int.cast_le.mpr (max_le_max h le_rfl)

/-- More reviews are worth more, as such. -/
theorem reviewsTerm_mono (h : m ≤ n) :
    (s.reviewed m).reviewsTerm ≤ (s.reviewed n).reviewsTerm := by
  have hpos : 0 < (s.reviewed m).count + 1 := by
    have hcount : 0 ≤ (s.reviewed m).count := Signals.count_nonneg
    linarith
  refine clamp_mono (div_le_div_of_nonneg_right ?_ (Real.log_nonneg ?_))
  · exact Real.log_le_log hpos (add_le_add (count_reviewed_mono h) le_rfl)
  · norm_num [reviewSaturation]

/-- Past the saturation, more reviews are worth no more. -/
theorem reviewsTerm_of_saturated (h : 500 ≤ n) : (s.reviewed n).reviewsTerm = 1 := by
  have hlog : 0 < Real.log (reviewSaturation + 1) := Real.log_pos (by norm_num [reviewSaturation])
  refine clamp_of_one_le ((one_le_div hlog).mpr (Real.log_le_log ?_ ?_))
  · norm_num [reviewSaturation]
  · rw [count_reviewed_of_nonneg (by omega), reviewSaturation]
    exact add_le_add (by exact_mod_cast h) le_rfl

/-- **The rating is pulled toward the mean**: it differs from the listing's own by a part of the
difference, which gets less with every review. -/
theorem adjusted_eq : s.adjusted meanRating =
    s.observed meanRating +
      reviewPrior * (meanRating - s.observed meanRating) / (reviewPrior + s.count) := by
  have hpos : reviewPrior + s.count ≠ 0 := prior_add_count_pos.ne'
  rw [Signals.adjusted]
  field_simp
  ring

/-- The part of a difference that remains gets less with every review. -/
theorem remaining_anti (h : m ≤ n) {d : ℝ} (hd : 0 ≤ d) :
    reviewPrior * d / (reviewPrior + (s.reviewed n).count) ≤
      reviewPrior * d / (reviewPrior + (s.reviewed m).count) := by
  refine div_le_div_of_nonneg_left ?_ prior_add_count_pos
    (add_le_add le_rfl (count_reviewed_mono h))
  exact mul_nonneg (by norm_num [reviewPrior]) hd

/-- **With a rating that is not below the mean, more reviews are worth more.** -/
theorem ratingTerm_mono (h : m ≤ n) (hrating : meanRating ≤ s.observed meanRating) :
    (s.reviewed m).ratingTerm meanRating ≤ (s.reviewed n).ratingTerm meanRating := by
  have hremaining := remaining_anti (s := s) h (sub_nonneg.mpr hrating)
  have hadjusted : (s.reviewed m).adjusted meanRating ≤ (s.reviewed n).adjusted meanRating := by
    have hneg (c : ℝ) : reviewPrior * (meanRating - s.observed meanRating) / c =
        -(reviewPrior * (s.observed meanRating - meanRating) / c) := by ring
    have hown (n : ℤ) : (s.reviewed n).observed meanRating = s.observed meanRating := rfl
    rw [adjusted_eq, adjusted_eq, hown, hown, hneg, hneg]
    linarith
  exact clamp_mono (div_le_div_of_nonneg_right (sub_le_sub_right hadjusted 1) (by norm_num))

/-- **With a rating below the mean, one more review is worth less.** -/
theorem ratingTerm_lt (hn : 0 ≤ n) (hmean : meanRating ≤ 5) (hlow : 1 ≤ s.observed meanRating)
    (hrating : s.observed meanRating < meanRating) :
    (s.reviewed (n + 1)).ratingTerm meanRating < (s.reviewed n).ratingTerm meanRating := by
  have hown (n : ℤ) : (s.reviewed n).observed meanRating = s.observed meanRating := rfl
  have hgap : 0 < reviewPrior * (meanRating - s.observed meanRating) :=
    mul_pos (by norm_num [reviewPrior]) (sub_pos.mpr hrating)
  have hcount : (s.reviewed (n + 1)).count = (s.reviewed n).count + 1 := by
    rw [count_reviewed_of_nonneg hn, count_reviewed_of_nonneg (by omega)]
    push_cast
    rfl
  -- it is a rating, so that nothing is cut off
  have hmem (k : ℤ) : (s.reviewed k).ratingTerm meanRating =
      ((s.reviewed k).adjusted meanRating - 1) / 4 := by
    have hpos : 0 < reviewPrior + (s.reviewed k).count := prior_add_count_pos
    have hcount : 0 ≤ (s.reviewed k).count := Signals.count_nonneg
    have hlast : reviewPrior * (meanRating - s.observed meanRating) /
        (reviewPrior + (s.reviewed k).count) ≤ meanRating - s.observed meanRating := by
      rw [div_le_iff₀ hpos]
      nlinarith
    have hfirst := div_nonneg hgap.le hpos.le
    rw [Signals.ratingTerm, clamp_of_mem]
    · rw [adjusted_eq, hown]
      linarith
    · rw [adjusted_eq, hown]
      linarith
  have hless : reviewPrior * (meanRating - s.observed meanRating) /
      (reviewPrior + (s.reviewed (n + 1)).count) <
        reviewPrior * (meanRating - s.observed meanRating) /
          (reviewPrior + (s.reviewed n).count) := by
    refine div_lt_div_of_pos_left hgap prior_add_count_pos ?_
    rw [hcount]
    linarith
  rw [hmem, hmem, adjusted_eq, adjusted_eq, hown, hown]
  linarith

/-- The weighted sums of two numbers of reviews differ in two terms. -/
theorem blended_reviewed : (s.reviewed n).blended meanRating w =
    w.rating * (s.reviewed n).ratingTerm meanRating + w.reviews * (s.reviewed n).reviewsTerm +
      (w.verified * indicator s.verified + w.claimed * indicator s.claimed +
        w.completeness * s.completeness) := by
  have hpage : (s.reviewed n).completeness = s.completeness := rfl
  rw [Signals.blended, hpage, Signals.reviewed]
  ring

/-- **More reviews never lower the score of a listing** exactly if its rating is not below the mean,
or does not count. -/
theorem score_monotone_iff (w : Weights) {rating : ℝ} (hmean : 1 ≤ meanRating ∧ meanRating ≤ 5)
    (hrating : 1 ≤ rating ∧ rating ≤ 5) (hs : s.rating = some rating) :
    (∀ m n, m ≤ n → score (s.reviewed m) meanRating w ≤ score (s.reviewed n) meanRating w) ↔
      w.rating = 0 ∨ meanRating ≤ rating := by
  have hobserved : s.observed meanRating = rating := by
    rw [Signals.observed, hs, Option.getD_some]
  constructor
  · intro hmono
    by_contra hnot
    obtain ⟨hweight, hbelow⟩ := not_or.mp hnot
    have hpos : (0 : ℝ) < w.rating := NNReal.coe_pos.mpr (pos_iff_ne_zero.mpr hweight)
    have htotal : 0 < w.total := by
      rw [Weights.total]
      positivity
    -- past the saturation, the rating alone decides
    have hless : (s.reviewed (500 + 1)).ratingTerm meanRating <
        (s.reviewed 500).ratingTerm meanRating := by
      refine ratingTerm_lt (by norm_num) hmean.2 ?_ ?_
      · rw [hobserved]
        exact hrating.1
      · rw [hobserved]
        exact not_le.mp hbelow
    have hle := hmono 500 (500 + 1) (by norm_num)
    rw [score_eq htotal, score_eq htotal, div_le_div_iff_of_pos_right htotal, blended_reviewed,
      blended_reviewed, reviewsTerm_of_saturated le_rfl,
      reviewsTerm_of_saturated (by norm_num : (500 : ℤ) ≤ 500 + 1)] at hle
    have hworse := mul_lt_mul_of_pos_left hless hpos
    linarith
  · intro hcase m n hmn
    refine score_mono ?_
    rw [blended_reviewed, blended_reviewed]
    have hvolume : w.reviews * (s.reviewed m).reviewsTerm ≤
        w.reviews * (s.reviewed n).reviewsTerm :=
      mul_le_mul_of_nonneg_left (reviewsTerm_mono hmn) w.reviews.2
    have hown : w.rating * (s.reviewed m).ratingTerm meanRating ≤
        w.rating * (s.reviewed n).ratingTerm meanRating := by
      rcases hcase with hzero | habove
      · rw [hzero, NNReal.coe_zero, zero_mul, zero_mul]
      · rw [← hobserved] at habove
        exact mul_le_mul_of_nonneg_left (ratingTerm_mono hmn habove) w.rating.2
    linarith

end Score

/-! ### A listing that is rated badly -/

/-- A listing that is rated at two. -/
def poor : Signals := { rating := some 2 }

/-- With the weights that are configured otherwise, but for the rating, forty reviews do not lower
the score of a listing that is rated at two. -/
theorem score_monotone_unrated :
    score (poor.reviewed 0) 4 { Weights.default with rating := 0 } ≤
      score (poor.reviewed 40) 4 { Weights.default with rating := 0 } :=
  (score_monotone_iff _ (by norm_num) (by norm_num) rfl).mpr (.inl rfl) 0 40 (by norm_num)

/-- **Forty bad reviews lower the score** of a listing that had none. -/
theorem score_poor : score (poor.reviewed 40) (42 / 10) .default <
    score (poor.reviewed 0) (42 / 10) .default := by
  have htotal : Weights.default.total = 1 := by
    norm_num [Weights.total, Weights.default]
  -- what the volume is worth is less than what the rating loses
  have hvolume : (poor.reviewed 40).reviewsTerm ≤ 7 / 10 := by
    have hlog : 0 < Real.log (reviewSaturation + 1) := Real.log_pos (by norm_num [reviewSaturation])
    have hpow : 10 * Real.log 41 ≤ 7 * Real.log 501 := by
      have hten : Real.log (41 ^ 10) = 10 * Real.log 41 := by
        rw [Real.log_pow]
        norm_num
      have hseven : Real.log (501 ^ 7) = 7 * Real.log 501 := by
        rw [Real.log_pow]
        norm_num
      rw [← hten, ← hseven]
      exact Real.log_le_log (by norm_num) (by norm_num)
    refine max_le (by norm_num) ((min_le_left _ _).trans ?_)
    rw [div_le_iff₀ hlog, count_reviewed_of_nonneg (by norm_num), reviewSaturation]
    norm_num
    linarith
  have hrated : (poor.reviewed 40).ratingTerm (42 / 10) = 36 / 100 := by
    rw [Signals.ratingTerm, Signals.adjusted, count_reviewed_of_nonneg (by norm_num),
      Signals.observed, clamp_of_mem] <;> norm_num [reviewPrior, Signals.reviewed, poor]
  have hunrated : (poor.reviewed 0).ratingTerm (42 / 10) = 80 / 100 := by
    rw [Signals.ratingTerm, Signals.adjusted, count_reviewed_of_nonneg (by norm_num),
      Signals.observed, clamp_of_mem] <;> norm_num [reviewPrior, Signals.reviewed, poor]
  have hfirst : 0 ≤ (poor.reviewed 0).reviewsTerm := clamp_nonneg _
  rw [score_eq (by norm_num [htotal]), score_eq (by norm_num [htotal]), htotal, div_one, div_one,
    blended_reviewed, blended_reviewed, hrated, hunrated]
  simp only [Weights.default]
  push_cast
  linarith

end Marketplace.Quality
