import Marketplace.Directory.Listing
import Mathlib.Algebra.Order.Ring.Rat
import Mathlib.Tactic.Linarith
import Mathlib.Tactic.Positivity

/-!
# What the text match is worth

The blended rank of the directory adds a bonus for a document that matches the text, one for
a trade the text asks for and one for a close name, the relevance of the document and half of
the standing quality. The bonus for the text is meant to outweigh the others, and is larger
than each of them; it is smaller than two of them together.

How two contractors compare is settled by their *marks*, that is by which of the two smaller
bonuses each of them has, as far as it can be settled before relevance and quality are known.
`Marketplace.Directory.textDominance_iff` says for which marks a contractor who matches is
safe from one who does not: the floor `Marketplace.Directory.floor_le_rank` of the first and
the ceiling `Marketplace.Directory.rank_le_ceiling` of the second are compared, and where the
ceiling is not below there are two contractors who stand the other way round.
-/

namespace Marketplace.Directory

open Search Sql

section Marks

variable (env : Search.Env) (db : Db)

/-- **The smaller bonuses**: which of them a contractor is paid. -/
structure Marks where
  /-- The contractor has a trade that the text asks for. -/
  routed : Bool
  /-- The name is close to the text. -/
  near : Bool
  deriving DecidableEq

/-- The marks of a contractor in a search. -/
def marks (f : Filters) (c : Contractor) : Marks where
  routed := (routedTo db f c).holds
  near := (nearName env f.query c).holds

/-- **What a ranking is added up with**: a rounding that keeps the order and has the quarters
among its numbers, and a relevance that is never negative. -/
structure Adds : Prop where
  mono : ∀ x y, x ≤ y → env.toFloat8 x ≤ env.toFloat8 y
  quarters : ∀ k : ℕ, k ≤ 16 → env.toFloat8 (k / 4) = k / 4
  rank_nonneg : ∀ doc q, 0 ≤ env.textRank doc q

/-- Two contractors that a search is about, of whom only the first matches by its document. -/
structure Contest (f : Filters) (q : Text) (m n : Contractor) : Prop where
  query : f.query = some q
  winner : m ∈ matching env db f
  other : n ∈ matching env db f
  matched : env.textMatches m.searchDoc q = true
  unmatched : env.textMatches n.searchDoc q = false
  /-- A standing quality lies between nought and one. -/
  quality : ∀ c ∈ [m, n], 0 ≤ c.qualityScore ∧ c.qualityScore ≤ 1

/-- The second contractor is not listed ahead of the first. -/
def NotBelow (f : Filters) (m n : Contractor) : Prop :=
  (orderingFor env db .best f).orderBy env m n ≠ .gt

/-- **When the text match carries the day** between contractors of some marks, where `stray`
says that the document of the second has a relevance although it does not match: a bonus the
second is paid is paid to the first as well, or makes up for the other one. -/
def Prevails (a b : Marks) (stray : Bool) : Prop :=
  (b.routed = true → stray = false ∧ (a.routed = true ∨ a.near = true ∧ b.near = false)) ∧
    (b.near = true → stray = false ∧ (a.near = true ∨ a.routed = true ∧ b.routed = false))

instance (a b : Marks) (stray : Bool) : Decidable (Prevails a b stray) :=
  inferInstanceAs (Decidable (_ ∧ _))

variable {env db} {f : Filters} {q : Text} {m n c : Contractor}

/-! ### Floor and ceiling -/

/-- The rank with the text terms told apart. -/
theorem rankExpression_eq (hq : f.query = some q) :
    rankExpression env db f c =
      env.toFloat8 (env.toFloat8 (env.toFloat8 (env.toFloat8
        (env.textRank c.searchDoc q + (if env.textMatches c.searchDoc q then 1 else 0)) +
          (if (marks env db f c).routed then 75 / 100 else 0)) +
          (if (marks env db f c).near then 5 / 10 else 0)) +
        env.toFloat8 (qualityWeight * c.qualityScore)) := by
  have hmatches : (matchesText env (some q) c).holds = env.textMatches c.searchDoc q := by
    rw [Bool.eq_iff_iff, matchesText, holds_test]
    simp
  simp only [rankExpression, marks, hq, hmatches]

/-- Rounding keeps a sum above the quarters that its terms are above. -/
theorem Adds.le_add (h : Adds env) {x y : ℚ} {j k : ℕ} (hx : (j : ℚ) / 4 ≤ x)
    (hy : (k : ℚ) / 4 ≤ y) (hjk : j + k ≤ 16) :
    ((j + k : ℕ) : ℚ) / 4 ≤ env.toFloat8 (x + y) := by
  have hsum : ((j + k : ℕ) : ℚ) / 4 ≤ x + y := by
    push_cast
    linarith
  calc ((j + k : ℕ) : ℚ) / 4 = env.toFloat8 (((j + k : ℕ) : ℚ) / 4) := (h.quarters _ hjk).symm
    _ ≤ env.toFloat8 (x + y) := h.mono _ _ hsum

/-- Rounding keeps a sum below the quarters that its terms are below. -/
theorem Adds.add_le (h : Adds env) {x y : ℚ} {j k : ℕ} (hx : x ≤ (j : ℚ) / 4)
    (hy : y ≤ (k : ℚ) / 4) (hjk : j + k ≤ 16) :
    env.toFloat8 (x + y) ≤ ((j + k : ℕ) : ℚ) / 4 := by
  have hsum : x + y ≤ ((j + k : ℕ) : ℚ) / 4 := by
    push_cast
    linarith
  calc env.toFloat8 (x + y) ≤ env.toFloat8 (((j + k : ℕ) : ℚ) / 4) := h.mono _ _ hsum
    _ = ((j + k : ℕ) : ℚ) / 4 := h.quarters _ hjk

/-- What a trade that the text asks for is paid, in quarters. -/
def Marks.routedQuarters (a : Marks) : ℕ := if a.routed then 3 else 0

/-- What a close name is paid, in quarters. -/
def Marks.nearQuarters (a : Marks) : ℕ := if a.near then 2 else 0

theorem Marks.routed_eq (a : Marks) :
    (if a.routed then (75 / 100 : ℚ) else 0) = (a.routedQuarters : ℚ) / 4 := by
  rcases a with ⟨_ | _, _⟩ <;> norm_num [Marks.routedQuarters]

theorem Marks.near_eq (a : Marks) :
    (if a.near then (5 / 10 : ℚ) else 0) = (a.nearQuarters : ℚ) / 4 := by
  rcases a with ⟨_, _ | _⟩ <;> norm_num [Marks.nearQuarters]

theorem Marks.routedQuarters_le (a : Marks) : a.routedQuarters ≤ 3 := by
  rcases a with ⟨_ | _, _⟩ <;> simp [routedQuarters]

theorem Marks.nearQuarters_le (a : Marks) : a.nearQuarters ≤ 2 := by
  rcases a with ⟨_, _ | _⟩ <;> simp [nearQuarters]

/-- **A contractor who matches ranks no lower than the bonuses it is paid.** -/
theorem floor_le_rank (h : Adds env) (hq : f.query = some q)
    (hmatch : env.textMatches c.searchDoc q = true) (hquality : 0 ≤ c.qualityScore) :
    ((4 + (marks env db f c).routedQuarters + (marks env db f c).nearQuarters : ℕ) : ℚ) / 4 ≤
      rankExpression env db f c := by
  have hrouted := (marks env db f c).routedQuarters_le
  have hnear := (marks env db f c).nearQuarters_le
  have hrank : ((0 : ℕ) : ℚ) / 4 ≤ env.textRank c.searchDoc q := by
    simpa using h.rank_nonneg c.searchDoc q
  have hone : ((4 : ℕ) : ℚ) / 4 ≤ (if env.textMatches c.searchDoc q then 1 else 0) := by
    norm_num [hmatch]
  have hstanding : ((0 : ℕ) : ℚ) / 4 ≤ env.toFloat8 (qualityWeight * c.qualityScore) := by
    have hweighted : (0 : ℚ) ≤ qualityWeight * c.qualityScore :=
      mul_nonneg (by norm_num [qualityWeight]) hquality
    calc ((0 : ℕ) : ℚ) / 4 = env.toFloat8 (((0 : ℕ) : ℚ) / 4) := (h.quarters 0 (by omega)).symm
      _ ≤ env.toFloat8 (qualityWeight * c.qualityScore) := h.mono _ _ (by simpa using hweighted)
  rw [rankExpression_eq hq, Marks.routed_eq, Marks.near_eq]
  have htext := h.le_add hrank hone (by omega)
  have hpaid := h.le_add (h.le_add htext (le_refl ((marks env db f c).routedQuarters / 4 : ℚ))
    (by omega)) (le_refl ((marks env db f c).nearQuarters / 4 : ℚ)) (by omega)
  have hsum := h.le_add hpaid hstanding (by omega)
  simpa only [zero_add, add_zero] using hsum

/-- **A contractor who does not match, nor has a relevance, ranks no higher than the bonuses it
is paid and a full quality.** -/
theorem rank_le_ceiling (h : Adds env) (hq : f.query = some q)
    (hmatch : env.textMatches c.searchDoc q = false) (hrelevance : env.textRank c.searchDoc q = 0)
    (hquality : c.qualityScore ≤ 1) :
    rankExpression env db f c ≤
      (((marks env db f c).routedQuarters + (marks env db f c).nearQuarters + 2 : ℕ) : ℚ) / 4 := by
  have hrouted := (marks env db f c).routedQuarters_le
  have hnear := (marks env db f c).nearQuarters_le
  have hrank : env.textRank c.searchDoc q ≤ ((0 : ℕ) : ℚ) / 4 := by
    simp [hrelevance]
  have hzero : (if env.textMatches c.searchDoc q then 1 else 0) ≤ ((0 : ℕ) : ℚ) / 4 := by
    simp [hmatch]
  have hstanding : env.toFloat8 (qualityWeight * c.qualityScore) ≤ ((2 : ℕ) : ℚ) / 4 := by
    have hweighted : qualityWeight * c.qualityScore ≤ ((2 : ℕ) : ℚ) / 4 := by
      rw [qualityWeight]
      push_cast
      linarith
    calc env.toFloat8 (qualityWeight * c.qualityScore) ≤ env.toFloat8 (((2 : ℕ) : ℚ) / 4) :=
          h.mono _ _ hweighted
      _ = ((2 : ℕ) : ℚ) / 4 := h.quarters 2 (by omega)
  rw [rankExpression_eq hq, Marks.routed_eq, Marks.near_eq]
  have htext := h.add_le hrank hzero (by omega)
  have hpaid := h.add_le (h.add_le htext (le_refl ((marks env db f c).routedQuarters / 4 : ℚ))
    (by omega)) (le_refl ((marks env db f c).nearQuarters / 4 : ℚ)) (by omega)
  have hsum := h.add_le hpaid hstanding (by omega)
  simpa only [zero_add, add_zero] using hsum

/-! ### Who is listed first -/

/-- A contractor of a higher rank is listed first. -/
theorem notBelow_of_lt (hq : f.query = some q)
    (h : rankExpression env db f n < rankExpression env db f m) : NotBelow env db f m n := by
  have hfirst : descNullsFirst (fun c => some (rankExpression env db f c)) m n = .lt := by
    rw [descNullsFirst, ascNullsLast]
    exact (cmp_eq_lt_iff _ _).mpr h
  simp [NotBelow, orderingFor, hq, DirectoryOrdering.orderBy, compareLex, hfirst]

/-- A contractor that a text search is about without matching it by its document has one of the
marks. -/
theorem Contest.marked (h : Contest env db f q m n) :
    (marks env db f n).routed = true ∨ (marks env db f n).near = true := by
  have htext := (mem_matching.mp h.other).2.2.1 q h.query
  rcases htext with hdoc | hnear | hrouted
  · rw [h.unmatched] at hdoc
    exact absurd hdoc Bool.false_ne_true
  · refine .inr ?_
    change (nearName env f.query n).holds = true
    rw [nearName, h.query, holds_test]
    exact ⟨_, rfl, _, rfl, by simpa using hnear⟩
  · exact .inl (holds_routedTo.mpr hrouted)

/-- **Where the match prevails, the ceiling of the one is below the floor of the other.** -/
theorem Prevails.quarters_lt {a b : Marks} {stray : Bool} (h : Prevails a b stray)
    (hmarked : b.routed = true ∨ b.near = true) :
    stray = false ∧
      b.routedQuarters + b.nearQuarters + 2 < 4 + a.routedQuarters + a.nearQuarters := by
  rcases a with ⟨_ | _, _ | _⟩ <;> rcases b with ⟨_ | _, _ | _⟩ <;>
    simp_all [Prevails, Marks.routedQuarters, Marks.nearQuarters]

end Marks

/-! ### Contests that are lost -/

section Lost

/-- A glazier whose name answers to the text, with no standing. -/
def glazier : Contractor :=
  { regional with
    id := 1
    displayName := "solar glass".toList
    qualityScore := 0 }

/-- A roofer of the best standing, whose document does not answer to the text. -/
def roofer : Contractor :=
  { regional with
    id := 2
    displayName := "bright roofs".toList
    qualityScore := 1 }

variable (a b : Marks) (stray : Bool)

/-- Surroundings in which the two are given some marks, and the second perhaps a relevance. -/
def contestEnv : Search.Env :=
  { Search.Env.plain with
    textMatches := fun doc _ => doc.head? = some glazier.displayName
    textRank := fun doc _ => if stray && doc.head? = some roofer.displayName then 2 else 0
    wordSimilarity := fun _ name =>
      if (if name = glazier.displayName then a.near else b.near) then 1 else 0 }

/-- The two of them, with the trades of their marks. -/
def contestDb : Db where
  contractors := [glazier, roofer]
  contractorTrades :=
    (if a.routed then [⟨glazier.id, 7⟩] else []) ++ if b.routed then [⟨roofer.id, 7⟩] else []
  serviceAreas := []
  regions := []
  vocabulary := ⟨[(7, "solar".toList)], [("solar".toList, 7)]⟩
  contractors_nodup := by decide

/-- A search for the trade by its name. -/
def solarSearch : Filters := { query := some "solar".toList, queryTradeIds := [7] }

/-- The surroundings add numbers up exactly. -/
theorem adds_contestEnv : Adds (contestEnv a b stray) where
  mono _ _ h := h
  quarters _ _ := rfl
  rank_nonneg doc _ := by
    change 0 ≤ if _ then (2 : ℚ) else 0
    split <;> norm_num

/-- **Where the match does not prevail, the second is listed ahead of the first.** -/
theorem contest_lost : ∀ aRouted aNear bRouted bNear stray : Bool,
    ¬ Prevails ⟨aRouted, aNear⟩ ⟨bRouted, bNear⟩ stray →
    (orderingFor (contestEnv ⟨aRouted, aNear⟩ ⟨bRouted, bNear⟩ stray)
      (contestDb ⟨aRouted, aNear⟩ ⟨bRouted, bNear⟩) .best solarSearch).orderBy
      (contestEnv ⟨aRouted, aNear⟩ ⟨bRouted, bNear⟩ stray) glazier roofer = .gt := by
  decide +kernel

/-- The two of them have the marks they are given. -/
theorem marks_contest : ∀ aRouted aNear bRouted bNear stray : Bool,
    marks (contestEnv ⟨aRouted, aNear⟩ ⟨bRouted, bNear⟩ stray)
        (contestDb ⟨aRouted, aNear⟩ ⟨bRouted, bNear⟩) solarSearch glazier = ⟨aRouted, aNear⟩ ∧
      marks (contestEnv ⟨aRouted, aNear⟩ ⟨bRouted, bNear⟩ stray)
        (contestDb ⟨aRouted, aNear⟩ ⟨bRouted, bNear⟩) solarSearch roofer = ⟨bRouted, bNear⟩ := by
  decide +kernel

/-- The search is about both of them, once the second has a mark. -/
theorem matching_contest : ∀ aRouted aNear bRouted bNear stray : Bool,
    (bRouted = true ∨ bNear = true) →
    glazier ∈ matching (contestEnv ⟨aRouted, aNear⟩ ⟨bRouted, bNear⟩ stray)
        (contestDb ⟨aRouted, aNear⟩ ⟨bRouted, bNear⟩) solarSearch ∧
      roofer ∈ matching (contestEnv ⟨aRouted, aNear⟩ ⟨bRouted, bNear⟩ stray)
        (contestDb ⟨aRouted, aNear⟩ ⟨bRouted, bNear⟩) solarSearch := by
  decide +kernel

variable {a b stray}

/-- The two of them contend. -/
theorem contest (h : b.routed = true ∨ b.near = true) :
    Contest (contestEnv a b stray) (contestDb a b) solarSearch "solar".toList glazier roofer where
  query := rfl
  winner := (matching_contest a.routed a.near b.routed b.near stray h).1
  other := (matching_contest a.routed a.near b.routed b.near stray h).2
  matched := rfl
  unmatched := rfl
  quality := by decide +kernel

/-- **The text match carries the day for the contractors of some marks exactly where it
prevails**: whatever the search, the tables, the relevance and the standing quality, a
contractor who matches by its document is not listed after one who does not, if every bonus
the other is paid is paid to it as well or made up for by one that only it is paid, and the
other has no relevance; for other marks there are two who stand the other way round. -/
theorem textDominance_iff (a b : Marks) (stray : Bool) :
    (∀ (env : Search.Env) (db : Db) (f : Filters) (q : Text) (m n : Contractor), Adds env →
      Contest env db f q m n → marks env db f m = a → marks env db f n = b →
      (env.textRank n.searchDoc q ≠ 0 ↔ stray = true) → NotBelow env db f m n) ↔
      Prevails a b stray := by
  constructor
  · intro h
    by_contra hnot
    have hmarked : b.routed = true ∨ b.near = true := by
      by_contra hbare
      push Not at hbare
      exact hnot ⟨fun hb => absurd hb hbare.1, fun hb => absurd hb hbare.2⟩
    have hmarks := marks_contest a.routed a.near b.routed b.near stray
    have hrelevance : (contestEnv a b stray).textRank roofer.searchDoc "solar".toList ≠ 0 ↔
        stray = true := by
      change (if _ then (2 : ℚ) else 0) ≠ 0 ↔ _
      rcases stray <;> simp [Contractor.searchDoc]
    exact h _ _ _ _ _ _ (adds_contestEnv a b stray) (contest hmarked) hmarks.1 hmarks.2 hrelevance
      (contest_lost a.routed a.near b.routed b.near stray hnot)
  · rintro h env db f q m n hadds hcontest rfl rfl hstray
    obtain ⟨hquiet, hquarters⟩ := h.quarters_lt hcontest.marked
    have hzero : env.textRank n.searchDoc q = 0 := by
      by_contra hne
      rw [hstray.mp hne] at hquiet
      exact absurd hquiet (by decide)
    obtain ⟨hm, -⟩ := hcontest.quality m (by simp)
    obtain ⟨-, hn⟩ := hcontest.quality n (by simp)
    apply notBelow_of_lt hcontest.query
    calc rankExpression env db f n
        ≤ (((marks env db f n).routedQuarters + (marks env db f n).nearQuarters + 2 : ℕ) : ℚ) / 4 :=
          rank_le_ceiling hadds hcontest.query hcontest.unmatched hzero hn
      _ < ((4 + (marks env db f m).routedQuarters + (marks env db f m).nearQuarters : ℕ) : ℚ) / 4 := by
          have hcast := Nat.cast_lt (α := ℚ).mpr hquarters
          linarith
      _ ≤ rankExpression env db f m := floor_le_rank hadds hcontest.query hcontest.matched hm

/-- Surroundings that count a tenth for every text of a document that contains the query. -/
def tenths : Search.Env :=
  { Search.Env.plain with
    textRank := fun doc query => doc.countP (fun s => decide (query <:+: s)) / 10 }

/-- The tables in which only the roofer holds the trade. -/
def roofersTrade : Db := contestDb ⟨false, false⟩ ⟨true, false⟩

/-- **The text match can be outranked**: asked for by the name of the trade, the glazier whose
name says "solar" is listed after the roofer who holds the trade and is rated best. -/
theorem textDominance_glazier :
    ∃ request, resolve tenths roofersTrade.vocabulary { q := some "solar".toList } = .ok request ∧
      request.sort = .best ∧ Adds tenths ∧
      Contest tenths roofersTrade request.filters "solar".toList glazier roofer ∧
      ¬ NotBelow tenths roofersTrade request.filters glazier roofer := by
  refine ⟨⟨solarSearch, .best, defaultLimit, none, []⟩, rfl, rfl, ?_, ?_, ?_⟩
  · exact
      { mono := fun _ _ h => h
        quarters := fun _ _ => rfl
        rank_nonneg := fun doc q => by
          change (0 : ℚ) ≤ (List.countP _ doc : ℚ) / 10
          positivity }
  · exact
      { query := rfl
        winner := by decide +kernel
        other := by decide +kernel
        matched := by decide +kernel
        unmatched := by decide +kernel
        quality := by decide +kernel }
  · change ¬ (_ ≠ Ordering.gt)
    decide +kernel

end Lost

end Marketplace.Directory
