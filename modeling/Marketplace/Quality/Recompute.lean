import Marketplace.Quality.Score
import Marketplace.Registry.Recheck

/-!
# The nightly scores

The loop over the listings that scores them (`Marketplace.Quality.recomputeAll`) pages by
identifiers, as the one that checks the badges does. It writes the scores that have changed, and no
signal, so that every score is the score of its signals at the end, and a second run finds nothing to
write (`Marketplace.Quality.recomputeAll_scored`).
-/

namespace Marketplace.Quality

open Registry (contractorIds contractorsAfter)

/-! ### What is read and written -/

/-- The columns of a listing that only its score has to do with. -/
structure Ranking where
  googleRating : Option ℝ
  googleReviewCount : Option ℤ
  qualityScore : ℝ
  updatedAt : Instant

/-- The signals of a listing. -/
def signals (c : Registry.Contractor) (r : Ranking) : Signals where
  rating := r.googleRating
  reviewCount := r.googleReviewCount
  verified := c.verified
  claimed := c.isClaimed
  hasBio := !Registry.isBlank (c.bio.getD [])
  hasPhoto := c.photo.isSome
  hasPhone := !Registry.isBlank (c.publicPhone.getD [])
  hasWebsite := !Registry.isBlank (c.websiteUrl.getD [])

/-- `NEUTRAL_RATING`. -/
def neutralRating : ℝ := 3

/-- What a run has done; of the listings that it has scored, the source keeps the number. -/
structure Recomputed where
  scanned : ℕ := 0
  changed : ℕ := 0
  /-- The listings that have been scored, in turn. -/
  visited : List Uuid := []

section

variable (w : Weights) (single : ℝ → ℝ) (batch : ℕ) (j : ℕ) (db : Registry.Db)

/-- `mean_rating`, as process `j` sees it: the mean of the ratings there are. -/
noncomputable def meanRating (cols : Uuid → Ranking) : Option ℝ :=
  let ratings := (contractorIds j db).filterMap fun k => (cols k).googleRating
  if ratings.isEmpty then none else some (ratings.sum / ratings.length)

/-- `ranking_signals_after`. -/
def rankingSignalsAfter (cols : Uuid → Ranking) (after : Option Uuid) (limit : ℕ) :
    List (Uuid × Signals) :=
  (contractorsAfter after limit j db).filterMap fun k =>
    (db.contractors.row j k).map fun c => (k, signals c (cols k))

open Classical in
/-- **`set_quality_scores`**: what has changed is written, and counted. -/
noncomputable def setQualityScores (now : Instant) (scored : List (Uuid × ℝ))
    (cols : Uuid → Ranking) : ℕ × (Uuid → Ranking) :=
  ((scored.filter fun s => (cols s.1).qualityScore ≠ s.2).length,
    fun k => ((scored.find? fun s => s.1 = k).filter fun s => (cols k).qualityScore ≠ s.2).elim
      (cols k) fun s => { cols k with qualityScore := s.2, updatedAt := now })

/-- The loop of `recompute_all`, with a score that is stored in single precision; at most this many
pages. The times are those at which the pages are written, by how many listings are behind. -/
noncomputable def recomputePages (now : ℕ → Instant) (mean : ℝ) :
    ℕ → Option Uuid → Recomputed → (Uuid → Ranking) → Option (Recomputed × (Uuid → Ranking))
  | 0, _, _, _ => none
  | n + 1, after, stats, cols =>
    let rows := rankingSignalsAfter j db cols after batch
    if rows.isEmpty then some (stats, cols)
    else
      let scored := rows.map fun row => (row.1, single (score row.2 mean w))
      let written := setQualityScores (now stats.scanned) scored cols
      recomputePages now mean n (rows.getLast?.map Prod.fst)
        ⟨stats.scanned + rows.length, stats.changed + written.1,
          stats.visited ++ rows.map Prod.fst⟩ written.2

/-- **`recompute_all`**, for so many pages. -/
noncomputable def recomputeAll (now : ℕ → Instant) (n : ℕ) (cols : Uuid → Ranking) :
    Option (Recomputed × (Uuid → Ranking)) :=
  recomputePages w single batch j db now ((meanRating j db cols).getD neutralRating) n none {} cols

/-! ### What the loop leaves -/

/-- **So far these listings have been scored**: they have the scores of the signals that were there
at the beginning, and a listing that had its score already, or is still to come, is as it was. -/
structure Rescored (mean : ℝ) (cols₀ : Uuid → Ranking) (done : List Uuid)
    (cols : Uuid → Ranking) : Prop where
  rating : ∀ k, (cols k).googleRating = (cols₀ k).googleRating
  reviews : ∀ k, (cols k).googleReviewCount = (cols₀ k).googleReviewCount
  written : ∀ k ∈ done, ∀ c ∈ db.contractors.row j k,
    (cols k).qualityScore = single (score (signals c (cols₀ k)) mean w)
  others : ∀ k ∉ done, cols k = cols₀ k
  kept : ∀ k, (∀ c ∈ db.contractors.row j k,
    (cols₀ k).qualityScore = single (score (signals c (cols₀ k)) mean w)) → cols k = cols₀ k

/-- The listings have the scores of their signals. -/
def Scored (mean : ℝ) (cols : Uuid → Ranking) : Prop :=
  ∀ k, ∀ c ∈ db.contractors.row j k,
    (cols k).qualityScore = single (score (signals c (cols k)) mean w)

variable {w single batch j db} {mean : ℝ} {cols₀ cols : Uuid → Ranking} {done : List Uuid}

theorem Rescored.signals_eq (h : Rescored w single j db mean cols₀ done cols) (c : Registry.Contractor)
    (k : Uuid) : signals c (cols k) = signals c (cols₀ k) := by
  rw [signals, signals, h.rating, h.reviews]

theorem Rescored.meanRating_eq (h : Rescored w single j db mean cols₀ done cols) :
    meanRating j db cols = meanRating j db cols₀ := by
  rw [meanRating, meanRating]
  simp only [h.rating]

variable (w single j db) in
/-- The scores of a page. -/
noncomputable def scoresOf (mean : ℝ) (cols : Uuid → Ranking) (ids : List Uuid) :
    List (Uuid × ℝ) :=
  (ids.filterMap fun k => (db.contractors.row j k).map fun c => (k, signals c (cols k))).map
    fun row => (row.1, single (score row.2 mean w))

/-- The listings of a page, with their signals. -/
theorem map_fst_rankingSignals {ids : List Uuid} (hids : ∀ k ∈ ids, k ∈ contractorIds j db) :
    (ids.filterMap fun k => (db.contractors.row j k).map fun c => (k, signals c (cols k))).map
      Prod.fst = ids := by
  induction ids with
  | nil => rfl
  | cons k ids ih =>
    obtain ⟨c, hc⟩ := Registry.mem_contractorIds.mp (hids k List.mem_cons_self)
    have hrest := ih fun l hl => hids l (List.mem_cons_of_mem k hl)
    rw [List.filterMap_cons_some (by rw [hc]; rfl), List.map_cons, hrest]

/-- The score of a listing, among those of a page. -/
theorem find?_scoresOf (ids : List Uuid) (k : Uuid) :
    (scoresOf w single j db mean cols ids).find? (fun s => s.1 = k) =
      if k ∈ ids then (db.contractors.row j k).map
        fun c => (k, single (score (signals c (cols k)) mean w)) else none := by
  induction ids with
  | nil => rfl
  | cons l ids ih =>
    cases hrow : db.contractors.row j l with
    | none =>
      have hskip : scoresOf w single j db mean cols (l :: ids) = scoresOf w single j db mean cols ids := by
        rw [scoresOf, List.filterMap_cons_none (by rw [hrow]; rfl)]
        rfl
      rw [hskip, ih]
      by_cases hl : k = l
      · subst hl
        rw [hrow]
        simp
      · simp [hl]
    | some c =>
      have hcons : scoresOf w single j db mean cols (l :: ids) =
          (l, single (score (signals c (cols l)) mean w)) :: scoresOf w single j db mean cols ids := by
        rw [scoresOf, List.filterMap_cons_some (by rw [hrow]; rfl), List.map_cons]
        rfl
      rw [hcons]
      by_cases hl : l = k
      · subst hl
        rw [List.find?_cons_of_pos (by simp), if_pos List.mem_cons_self, hrow]
        rfl
      · have hk : k ∈ l :: ids ↔ k ∈ ids := by
          rw [List.mem_cons]
          exact or_iff_right fun h => hl h.symm
        rw [List.find?_cons_of_neg (by simpa using hl), ih]
        simp only [hk]

/-- A page, written. -/
theorem setQualityScores_of_mem {ids : List Uuid} {k : Uuid} (hk : k ∈ ids)
    {c : Registry.Contractor} (hc : db.contractors.row j k = some c) (now : Instant) :
    (setQualityScores now (scoresOf w single j db mean cols ids) cols).2 k =
      if (cols k).qualityScore = single (score (signals c (cols k)) mean w) then cols k
      else { cols k with
        qualityScore := single (score (signals c (cols k)) mean w), updatedAt := now } := by
  simp only [setQualityScores]
  rw [find?_scoresOf, if_pos hk, hc, Option.map_some, Option.filter_some]
  split
  · rename_i hne
    rw [if_neg (of_decide_eq_true hne)]
    rfl
  · rename_i heq
    rw [if_pos (not_not.mp fun hne => heq (decide_eq_true hne))]
    rfl

theorem setQualityScores_of_not_mem {ids : List Uuid} {k : Uuid}
    (hk : k ∉ ids ∨ db.contractors.row j k = none) (now : Instant) :
    (setQualityScores now (scoresOf w single j db mean cols ids) cols).2 k = cols k := by
  have hnone : (scoresOf w single j db mean cols ids).find? (fun s => s.1 = k) = none := by
    rw [find?_scoresOf]
    rcases hk with hk | hk
    · rw [if_neg hk]
    · rw [hk, Option.map_none, ite_self]
  simp only [setQualityScores]
  rw [hnone]
  rfl

theorem Rescored.start : Rescored w single j db mean cols [] cols where
  rating := fun _ => rfl
  reviews := fun _ => rfl
  written := by simp
  others := fun _ _ => rfl
  kept := fun _ _ => rfl

/-- **A page is written.** -/
theorem Rescored.page (h : Rescored w single j db mean cols₀ done cols) {ids : List Uuid}
    (hnew : ∀ k ∈ ids, k ∉ done) (now : Instant) :
    Rescored w single j db mean cols₀ (done ++ ids)
      (setQualityScores now (scoresOf w single j db mean cols ids) cols).2 := by
  -- a listing of the page is as at the beginning before the page is written
  have hcases (k : Uuid) : ((setQualityScores now (scoresOf w single j db mean cols ids) cols).2 k =
        cols k ∧ (k ∉ ids ∨ db.contractors.row j k = none)) ∨
      ∃ c, k ∈ ids ∧ db.contractors.row j k = some c ∧
        (setQualityScores now (scoresOf w single j db mean cols ids) cols).2 k =
          if (cols₀ k).qualityScore = single (score (signals c (cols₀ k)) mean w) then cols₀ k
          else { cols₀ k with
            qualityScore := single (score (signals c (cols₀ k)) mean w), updatedAt := now } := by
    by_cases hk : k ∈ ids
    · cases hrow : db.contractors.row j k with
      | none => exact .inl ⟨setQualityScores_of_not_mem (.inr hrow) now, .inr rfl⟩
      | some c =>
        refine .inr ⟨c, hk, rfl, ?_⟩
        rw [setQualityScores_of_mem hk hrow now, h.others k (hnew k hk)]
    · exact .inl ⟨setQualityScores_of_not_mem (.inl hk) now, .inl hk⟩
  constructor
  · intro k
    rcases hcases k with ⟨heq, -⟩ | ⟨c, -, -, heq⟩
    · rw [heq, h.rating]
    · rw [heq]
      split <;> rfl
  · intro k
    rcases hcases k with ⟨heq, -⟩ | ⟨c, -, -, heq⟩
    · rw [heq, h.reviews]
    · rw [heq]
      split <;> rfl
  · intro k hk c hc
    rcases hcases k with ⟨heq, hold⟩ | ⟨c', -, hrow, heq⟩
    · rcases hold with hold | hnone
      · rw [heq]
        exact h.written k ((List.mem_append.mp hk).resolve_right hold) c hc
      · rw [hnone] at hc
        exact absurd hc (Option.not_mem_none c)
    · obtain rfl : c' = c := Option.some.inj (hrow.symm.trans hc)
      rw [heq]
      split
      · assumption
      · rfl
  · intro k hk
    rw [List.mem_append, not_or] at hk
    rcases hcases k with ⟨heq, -⟩ | ⟨c, hmem, -, -⟩
    · exact heq.trans (h.others k hk.1)
    · exact absurd hmem hk.2
  · intro k hscore
    rcases hcases k with ⟨heq, -⟩ | ⟨c, -, hrow, heq⟩
    · exact heq.trans (h.kept k hscore)
    · rw [heq, if_pos (hscore c hrow)]

/-- Nothing of a page has changed if the listings have the scores of their signals. -/
theorem Rescored.changed_eq_zero (h : Rescored w single j db mean cols₀ done cols) {ids : List Uuid}
    (hscored : Scored w single j db mean cols₀) (now : Instant) :
    (setQualityScores now (scoresOf w single j db mean cols ids) cols).1 = 0 := by
  rw [setQualityScores, List.length_eq_zero_iff, List.filter_eq_nil_iff]
  intro s hs
  obtain ⟨row, hrow, rfl⟩ := List.mem_map.mp hs
  obtain ⟨k, -, hk⟩ := List.mem_filterMap.mp hrow
  obtain ⟨c, hc, rfl⟩ := Option.map_eq_some_iff.mp hk
  have hsame : cols k = cols₀ k := h.kept k (hscored k)
  simp only [hsame]
  simpa using hscored k c hc

/-- **The loop, from a page on.** -/
theorem recomputePages_from (now : ℕ → Instant) {n : ℕ} {rest : List Uuid} (hbatch : 0 < batch)
    (hn : rest.length < n) (h : Rescored w single j db mean cols₀ done cols)
    (hids : contractorIds j db = done ++ rest) (changed : ℕ) :
    ∃ more cols', recomputePages w single batch j db now mean n done.getLast?
        ⟨done.length, changed, done⟩ cols =
          some (⟨(contractorIds j db).length, changed + more, contractorIds j db⟩, cols') ∧
      Rescored w single j db mean cols₀ (contractorIds j db) cols' ∧
      (Scored w single j db mean cols₀ → more = 0) := by
  induction n generalizing done rest cols changed with
  | zero => omega
  | succ n ih =>
    have hpage : contractorsAfter done.getLast? batch j db = rest.take batch := by
      rw [Registry.contractorsAfter_eq, hids]
      exact Keyset.after_append (hids ▸ Registry.pairwise_contractorIds) batch
    have hmem : ∀ k ∈ rest.take batch, k ∈ contractorIds j db := by
      intro k hk
      rw [hids]
      exact List.mem_append_right _ (List.mem_of_mem_take hk)
    have hfst : (rankingSignalsAfter j db cols done.getLast? batch).map Prod.fst =
        rest.take batch := by
      rw [rankingSignalsAfter, hpage]
      exact map_fst_rankingSignals hmem
    have hlength : (rankingSignalsAfter j db cols done.getLast? batch).length =
        (rest.take batch).length := by
      rw [← hfst, List.length_map]
    simp only [recomputePages]
    rcases rest with _ | ⟨k, rest⟩
    · -- nothing is left
      rw [List.take_nil, List.length_nil, List.length_eq_zero_iff] at hlength
      rw [List.append_nil] at hids
      rw [hlength, if_pos (by rfl), hids]
      exact ⟨0, cols, rfl, h, fun _ => rfl⟩
    · have hpos : 0 < ((k :: rest).take batch).length := by
        rw [List.length_take, List.length_cons]
        omega
      have hsome : ¬ (rankingSignalsAfter j db cols done.getLast? batch).isEmpty = true := by
        rw [List.isEmpty_iff, ← List.length_eq_zero_iff]
        omega
      have hlast : ((rankingSignalsAfter j db cols done.getLast? batch).getLast?).map Prod.fst =
          (done ++ (k :: rest).take batch).getLast? := by
        obtain ⟨l, ls, hls⟩ := List.exists_cons_of_length_pos hpos
        rw [← List.getLast?_map, hfst, hls, List.getLast?_append_cons]
      have hsplit : contractorIds j db =
          (done ++ (k :: rest).take batch) ++ (k :: rest).drop batch := by
        rw [List.append_assoc, List.take_append_drop, hids]
      have hnew : ∀ l ∈ (k :: rest).take batch, l ∉ done := by
        have hnodup : (contractorIds j db).Nodup :=
          Registry.pairwise_contractorIds.imp fun h => h.ne
        rw [hids] at hnodup
        intro l hl hdone
        exact (List.nodup_append.mp hnodup).2.2 l hdone l (List.mem_of_mem_take hl) rfl
      have hshort : ((k :: rest).drop batch).length < n := by
        rw [List.length_drop]
        rw [List.length_cons] at hn ⊢
        omega
      have hscores : (rankingSignalsAfter j db cols done.getLast? batch).map
          (fun row => (row.1, single (score row.2 mean w))) =
            scoresOf w single j db mean cols ((k :: rest).take batch) := by
        rw [rankingSignalsAfter, hpage]
        rfl
      rw [if_neg hsome, hlast, hfst, hlength, ← List.length_append, hscores]
      obtain ⟨more, cols', hrun, hdone, hmore⟩ := ih hshort (h.page hnew (now done.length)) hsplit
        (changed + (setQualityScores (now done.length)
          (scoresOf w single j db mean cols ((k :: rest).take batch)) cols).1)
      refine ⟨(setQualityScores (now done.length)
        (scoresOf w single j db mean cols ((k :: rest).take batch)) cols).1 + more, cols',
        hrun.trans ?_, hdone, fun hscored => ?_⟩
      · rw [Nat.add_assoc]
      · rw [hmore hscored, h.changed_eq_zero hscored]

/-- **The nightly scores**: the loop comes to every listing once, and ends; every score is the score
of its signals then, and a second run changes none. -/
theorem recomputeAll_scored {now : ℕ → Instant} {n : ℕ} (hbatch : 0 < batch)
    (hn : (contractorIds j db).length < n) (cols : Uuid → Ranking) :
    ∃ changed cols', recomputeAll w single batch j db now n cols =
        some (⟨(contractorIds j db).length, changed, contractorIds j db⟩, cols') ∧
      Scored w single j db ((meanRating j db cols').getD neutralRating) cols' ∧
      (∀ k, (cols' k).googleRating = (cols k).googleRating ∧
        (cols' k).googleReviewCount = (cols k).googleReviewCount) ∧
      ∀ (now' : ℕ → Instant) (n' : ℕ), (contractorIds j db).length < n' →
        recomputeAll w single batch j db now' n' cols' =
          some (⟨(contractorIds j db).length, 0, contractorIds j db⟩, cols') := by
  have hstart (cols : Uuid → Ranking) :
      Rescored w single j db ((meanRating j db cols).getD neutralRating) cols [] cols := .start
  obtain ⟨changed, cols', hrun, hdone, -⟩ := recomputePages_from now hbatch hn (hstart cols)
    (List.nil_append _).symm 0
  have hmean : meanRating j db cols' = meanRating j db cols := hdone.meanRating_eq
  have hscored : Scored w single j db ((meanRating j db cols').getD neutralRating) cols' := by
    intro k c hc
    rw [hmean, hdone.signals_eq]
    exact hdone.written k (Registry.mem_contractorIds.mpr ⟨c, hc⟩) c hc
  refine ⟨changed, cols', ?_, hscored, fun k => ⟨hdone.rating k, hdone.reviews k⟩, ?_⟩
  · rw [Nat.zero_add] at hrun
    exact hrun
  · intro now' n' hn'
    obtain ⟨more, cols'', hrun', hdone', hmore⟩ := recomputePages_from now' hbatch hn'
      (hstart cols') (List.nil_append _).symm 0
    have hkept : cols'' = cols' := funext fun k => hdone'.kept k (hscored k)
    rw [hmore hscored, hkept] at hrun'
    exact hrun'

/-- **The nightly loops visit everyone once.** From a database in which nobody is writing a listing,
whatever the sizes of the pages: the check of the badges, while only time passes, writes the badge
of every listing once, in the order of the identifiers, ends, and leaves the badges right; and the
scoring comes to every listing once, ends, and leaves every listing the score of its signals, which a
second run does not change. -/
theorem recompute_sound (atlas : Registry.Atlas) (w : Weights) (single : ℝ → ℝ)
    {page batch j : ℕ} {db : Registry.Db} (hpage : 0 < page) (hbatch : 0 < batch)
    (hrest : db.AtRest) :
    (contractorIds j db).Nodup ∧
      (∀ k, k ∈ contractorIds j db ↔ ∃ c, (db.contractors.slot k).committed = some c) ∧
      (∀ pages, (contractorIds j db).length < pages →
        (Registry.recomputeAll atlas page pages none 0).run.Undisturbed (Registry.registry atlas) j
          (fun r log db' => r = .ok (contractorIds j db).length ∧
            Registry.badgesOf log = contractorIds j db ∧ Registry.BadgesRight atlas j db db') [] db) ∧
      ∀ (now : ℕ → Instant) (n : ℕ) (cols : Uuid → Ranking), (contractorIds j db).length < n →
        ∃ changed cols', recomputeAll w single batch j db now n cols =
            some (⟨(contractorIds j db).length, changed, contractorIds j db⟩, cols') ∧
          Scored w single j db ((meanRating j db cols').getD neutralRating) cols' ∧
          (∀ k, (cols' k).googleRating = (cols k).googleRating ∧
            (cols' k).googleReviewCount = (cols k).googleReviewCount) ∧
          ∀ (now' : ℕ → Instant) (n' : ℕ), (contractorIds j db).length < n' →
            recomputeAll w single batch j db now' n' cols' =
              some (⟨(contractorIds j db).length, 0, contractorIds j db⟩, cols') := by
  refine ⟨Registry.pairwise_contractorIds.imp fun h => h.ne, fun k => ?_, fun pages hpages =>
    Registry.recomputeAll_undisturbed hpage hrest hpages, fun now n cols hn =>
    recomputeAll_scored hbatch hn cols⟩
  rw [Registry.mem_contractorIds, hrest.row_eq]

/-- Of a directory with one listing. -/
theorem recompute_sound_listing : ∃ db : Registry.Db, contractorIds 0 db = [1] ∧
    ∀ pages, 1 < pages →
      (Registry.recomputeAll .plain 1 pages none 0).run.Undisturbed (Registry.registry .plain) 0
        (fun r log db' => r = .ok 1 ∧ Registry.badgesOf log = [1] ∧
          Registry.BadgesRight .plain 0 db db') [] db := by
  let db : Registry.Db :=
    { contractors := ReadCommitted.Table.empty.put 1
        ⟨some (Registry.SourceFacts.row ⟨1, "Ace".toList, "ace".toList, none, none⟩), none⟩ }
  have hrest : db.AtRest := by
    intro k
    show (if k = 1 then _ else ({} : ReadCommitted.Slot ℕ Registry.Contractor)).lock = none
    split <;> rfl
  have hids : contractorIds 0 db = [1] := rfl
  have hsound := (@recompute_sound .plain .default id 1 1 0 db Nat.one_pos Nat.one_pos hrest).2.2.1
  rw [hids] at hsound
  exact ⟨db, hids, hsound⟩

end

end Marketplace.Quality
