import Mathlib.Algebra.Order.Field.Rat
import Mathlib.Data.Char
import Mathlib.Data.Finset.Sort
import Mathlib.Data.List.Lex
import Marketplace.EditDistance.Distance
import Marketplace.Enrichment.Strings

/-!
# How much alike two names are

Names are compared without case, accents, punctuation and legal suffixes
(`Marketplace.Enrichment.normaliseName`), by the edit distance and by the words they share, and the
larger of the two counts (`Marketplace.Enrichment.nameSimilarity`). The edit distance is computed
row by row (`Marketplace.Enrichment.levenshtein`), and a row holds the distances of one prefix of
the first name from all prefixes of the second (`Marketplace.Enrichment.nextRow_row`).

The suffixes are looked for among the words, after the punctuation is gone. One of them is written
with points, and no word is (`Marketplace.Enrichment.normaliseName_append_iff`).
-/

namespace Marketplace.Enrichment

/-! ### Normalised names -/

/-- `_LEGAL_SUFFIXES`. -/
def legalSuffixes : List String :=
  ["inc", "incorporated", "llc", "l.l.c", "llp", "lp", "corp", "corporation", "co", "company",
    "ltd", "limited", "pc", "pllc", "dba", "the"]

/-- The word is a legal suffix. -/
def isLegalSuffix (w : Text) : Bool := legalSuffixes.any fun s => s.toList = w

/-- The letters and digits a name may have: `[a-z0-9]`. -/
def isNameChar (c : Char) : Bool := c.isLower || c.isDigit

/-- What `_PUNCT` stands for: `[^a-z0-9\s]`. -/
def isPunct (c : Char) : Bool := !(isNameChar c || isSpace c)

/-- `_PUNCT.sub(" ", …)`. -/
def withoutPunct (s : Text) : Text := s.map fun c => if isPunct c then ' ' else c

/-- `_SPACE.sub(" ", …)`. -/
def withOneSpace (s : Text) : Text := Words.collapse isSpace ' ' s

/-- `replace("&", " and ")`. -/
def withAnd (s : Text) : Text := s.flatMap fun c => if c = '&' then " and ".toList else [c]

section Normalise

variable (u : Unicode)

/-- A name without case, accents and punctuation. -/
def cleaned (value : Text) : Text := withoutPunct (withAnd (u.lowered (u.fold value)))

/-- The words of a name. -/
def nameTokens (value : Text) : List Text :=
  ((strip (withOneSpace (cleaned u value))).splitOn ' ').filter fun w => !w.isEmpty

/-- The words that are no legal suffixes. -/
def keptTokens (tokens : List Text) : List Text := tokens.filter fun w => !isLegalSuffix w

/-- The words that are kept, or all of them if they are all legal suffixes. -/
def chosenTokens (tokens : List Text) : List Text :=
  if (keptTokens tokens).isEmpty then tokens else keptTokens tokens

/-- **`normalise_name`**: a name without case, accents, punctuation and legal suffixes. -/
def normaliseName : Option Text → Text
  | none => []
  | some value => if value.isEmpty then [] else [' '].intercalate (chosenTokens (nameTokens u value))

variable {u}

theorem isSpace_space : isSpace ' ' = true := by decide

theorem cleaned_append (s t : Text) : cleaned u (s ++ t) = cleaned u s ++ cleaned u t := by
  simp only [cleaned, u.fold_append, u.lowered_append, withAnd, withoutPunct, List.flatMap_append,
    List.map_append]

/-- **The words of a name**, whatever spaces there are between them. -/
theorem nameTokens_eq (value : Text) : nameTokens u value = Words.split isSpace (cleaned u value) := by
  have hspace : ∀ c ∈ strip (withOneSpace (cleaned u value)), (c == ' ') = isSpace c := by
    intro c hc
    rcases Words.mem_collapseFrom (Words.mem_of_mem_trim hc) with rfl | hc
    · exact isSpace_space.symm
    · rw [hc, beq_eq_false_iff_ne]
      rintro rfl
      exact Bool.true_eq_false_eq_False hc
  calc nameTokens u value
      = Words.split (· == ' ') (strip (withOneSpace (cleaned u value))) := rfl
    _ = Words.split isSpace (strip (withOneSpace (cleaned u value))) := Words.split_congr hspace
    _ = Words.split isSpace (withOneSpace (cleaned u value)) := Words.split_trim fun _ _ => id
    _ = Words.split isSpace (cleaned u value) := Words.split_collapse isSpace_space _

/-- The words of two names with a space or something like it between them. -/
theorem nameTokens_append_cons {sep : Char} (hsep : cleaned u [sep] = [' ']) (s t : Text) :
    nameTokens u (s ++ sep :: t) = nameTokens u s ++ nameTokens u t := by
  have h : cleaned u (s ++ sep :: t) = cleaned u s ++ ' ' :: cleaned u t := by
    rw [cleaned_append, show sep :: t = [sep] ++ t from rfl, cleaned_append, hsep]
    rfl
  rw [nameTokens_eq, nameTokens_eq, nameTokens_eq, h, Words.split_append_cons isSpace_space]

theorem normaliseName_some (value : Text) : normaliseName u (some value) =
    [' '].intercalate (chosenTokens (nameTokens u value)) := by
  rw [normaliseName]
  split
  · rename_i h
    rw [List.isEmpty_iff.mp h]
    rfl
  · rfl

/-! A word has letters and digits only, so nothing happens to it any more. -/

theorem isNameChar_bounds {c : Char} (h : isNameChar c = true) :
    97 ≤ c.toNat ∧ c.toNat ≤ 122 ∨ 48 ≤ c.toNat ∧ c.toNat ≤ 57 := by
  rw [isNameChar, Bool.or_eq_true] at h
  exact h.imp Ascii.isLower_iff.mp Ascii.isDigit_iff.mp

theorem toLower_of_isNameChar {c : Char} (h : isNameChar c = true) : c.toLower = c := by
  refine Ascii.toLower_of_not_isUpper fun hupper => ?_
  have hbounds := isNameChar_bounds h
  have hcapital := Ascii.isUpper_iff.mp hupper
  omega

/-- A character that is not of ASCII has no lower case that is. -/
theorem toNat_lt_of_toLower {c : Char} (h : c.toLower.toNat < 128) : c.toNat < 128 := by
  by_cases hupper : c.isUpper = true
  · have hcapital := Ascii.isUpper_iff.mp hupper
    omega
  · rwa [Ascii.toLower_of_not_isUpper hupper] at h

/-- Of a name in ASCII only the case and the punctuation go. -/
theorem cleaned_ascii {s : Text} (hascii : ∀ c ∈ s, c.toNat < 128)
    (hand : '&' ∉ s.map Char.toLower) : cleaned u s = withoutPunct (s.map Char.toLower) := by
  have hkeep : ∀ t : Text, '&' ∉ t → withAnd t = t := by
    intro t ht
    induction t with
    | nil => rfl
    | cons c t ih =>
      have hc : ¬ c = '&' := fun hc => ht (hc ▸ List.mem_cons_self)
      rw [withAnd, List.flatMap_cons, if_neg hc]
      exact congrArg (c :: ·) (ih fun h => ht (List.mem_cons_of_mem c h))
  rw [cleaned, u.fold_ascii hascii, u.lowered_ascii hascii, hkeep _ hand]

theorem cleaned_singleton {c : Char} (hascii : c.toNat < 128) (hand : c.toLower ≠ '&') :
    cleaned u [c] = withoutPunct [c.toLower] :=
  cleaned_ascii (List.forall_mem_singleton.mpr hascii)
    fun h => hand (List.mem_singleton.mp h).symm

theorem withoutPunct_eq_self {s : Text} (h : ∀ c ∈ s, isPunct c = false) : withoutPunct s = s := by
  rw [withoutPunct, List.map_congr_left (g := id), List.map_id]
  intro c hc
  rw [h c hc]
  rfl

/-- **What is clean stays as it is.** -/
theorem cleaned_eq_self {s : Text} (h : ∀ c ∈ s, c = ' ' ∨ isNameChar c = true) :
    cleaned u s = s := by
  have hlower : s.map Char.toLower = s := by
    rw [List.map_congr_left (g := id), List.map_id]
    intro c hc
    rcases h c hc with rfl | hc
    · rfl
    · exact toLower_of_isNameChar hc
  have hascii : ∀ c ∈ s, c.toNat < 128 := by
    intro c hc
    rcases h c hc with rfl | hc
    · decide
    · have hbounds := isNameChar_bounds hc
      omega
  have hand : '&' ∉ s := fun hc => absurd (h _ hc) (by decide)
  rw [cleaned_ascii hascii (by rwa [hlower]), hlower]
  refine withoutPunct_eq_self fun c hc => ?_
  rcases h c hc with rfl | hc
  · decide
  · rw [isPunct, hc]
    rfl

theorem isSpace_of_isNameChar {c : Char} (h : isNameChar c = true) : isSpace c = false := by
  have hbounds := isNameChar_bounds h
  exact isSpace_of_printed (by omega) (by omega)

/-- A word of a name is not empty, and has letters and digits only. -/
theorem of_mem_nameTokens {value w : Text} (hw : w ∈ nameTokens u value) :
    w ≠ [] ∧ ∀ c ∈ w, isNameChar c = true := by
  rw [nameTokens_eq] at hw
  refine ⟨Words.ne_nil_of_mem_split hw, fun c hc => ?_⟩
  obtain ⟨hmem, hspace⟩ := Words.of_mem_split hw c hc
  obtain ⟨d, -, hd⟩ := List.mem_map.mp (show c ∈ withoutPunct _ from hmem)
  -- what is punctuation has become a space, and what is not is a letter or a digit
  by_cases hp : isPunct d = true
  · rw [if_pos hp] at hd
    rw [← hd] at hspace
    exact absurd hspace (by decide)
  · rw [if_neg hp] at hd
    subst hd
    simpa [isPunct, hspace] using hp

/-- **Words that are joined are the words of the name.** -/
theorem nameTokens_join {ws : List Text} (hws : ∀ w ∈ ws, w ≠ [] ∧ ∀ c ∈ w, isNameChar c = true) :
    nameTokens u ([' '].intercalate ws) = ws := by
  rw [nameTokens_eq, cleaned_eq_self, Words.split_join isSpace_space fun w hw => (hws w hw).1]
  · exact fun w hw c hc => isSpace_of_isNameChar ((hws w hw).2 c hc)
  · intro c hc
    rcases Words.mem_join hc with rfl | ⟨w, hw, hc⟩
    · exact .inl rfl
    · exact .inr ((hws w hw).2 c hc)

theorem mem_of_mem_chosenTokens {ws : List Text} {w : Text} (h : w ∈ chosenTokens ws) : w ∈ ws := by
  rw [chosenTokens] at h
  split at h
  · exact h
  · exact (List.mem_filter.mp h).1

/-- Of the words that are chosen all are chosen again. -/
theorem chosenTokens_chosenTokens (ws : List Text) :
    chosenTokens (chosenTokens ws) = chosenTokens ws := by
  have hkept : keptTokens (keptTokens ws) = keptTokens ws := by
    rw [keptTokens, keptTokens, List.filter_filter]
    simp only [Bool.and_self]
  by_cases h : (keptTokens ws).isEmpty = true
  · have hall : chosenTokens ws = ws := by rw [chosenTokens, if_pos h]
    rw [hall, hall]
  · have hsome : chosenTokens ws = keptTokens ws := by rw [chosenTokens, if_neg h]
    rw [hsome, chosenTokens, hkept, if_neg h]

/-- **A normalised name is normalised.** -/
theorem normaliseName_normaliseName (value : Option Text) :
    normaliseName u (some (normaliseName u value)) = normaliseName u value := by
  rcases value with - | value
  · rfl
  · have hmem : ∀ w ∈ chosenTokens (nameTokens u value), w ∈ nameTokens u value := fun w hw =>
      mem_of_mem_chosenTokens hw
    have hwords := nameTokens_join (u := u) fun w hw => of_mem_nameTokens (hmem w hw)
    rw [normaliseName_some value, normaliseName_some, hwords, chosenTokens_chosenTokens]

/-! ### Legal suffixes -/

/-- A suffix that is written without points is one word, and the other is three. -/
theorem nameTokens_suffix {s : String} {t dot : Text} (hs : s ∈ legalSuffixes)
    (ht : t.map Char.toLower = s.toList) (hdot : dot = [] ∨ dot = ['.']) :
    nameTokens u (t ++ dot) = if s = "l.l.c" then [['l'], ['l'], ['c']] else [s.toList] := by
  have hplain : ∀ s ∈ legalSuffixes, s.toList.all (fun c => c.toNat < 128 && c ≠ '&') = true ∧
      Words.split isSpace (withoutPunct s.toList) =
        if s = "l.l.c" then [['l'], ['l'], ['c']] else [s.toList] := by
    decide
  obtain ⟨hchars, hwords⟩ := hplain s hs
  rw [← ht] at hchars
  have hascii : ∀ c ∈ t, c.toNat < 128 := by
    intro c hc
    have hlower := List.all_eq_true.mp hchars c.toLower (List.mem_map_of_mem hc)
    simp only [Bool.and_eq_true, decide_eq_true_eq] at hlower
    exact toNat_lt_of_toLower hlower.1
  have hand : '&' ∉ t.map Char.toLower := by
    intro hc
    have hne := List.all_eq_true.mp hchars '&' hc
    exact absurd hne (by decide)
  have hword : nameTokens u t = if s = "l.l.c" then [['l'], ['l'], ['c']] else [s.toList] := by
    rw [nameTokens_eq, cleaned_ascii hascii hand, ht, hwords]
  have hpoint : cleaned u ['.'] = [' '] := by
    rw [cleaned_singleton (by decide) (by decide)]
    rfl
  rcases hdot with rfl | rfl
  · rw [List.append_nil, hword]
  · rw [nameTokens_append_cons hpoint t [], hword, nameTokens_eq]
    exact List.append_nil _

/-- Spaces and commas add no words. -/
theorem nameTokens_separated {sep : Text} (hne : sep ≠ []) (hsep : ∀ c ∈ sep, c = ' ' ∨ c = ',')
    (s t : Text) : nameTokens u (s ++ sep ++ t) = nameTokens u s ++ nameTokens u t := by
  have hclean {c : Char} (hc : c = ' ' ∨ c = ',') : cleaned u [c] = [' '] := by
    rcases hc with rfl | rfl
    · rw [cleaned_singleton (by decide) (by decide)]
      rfl
    · rw [cleaned_singleton (by decide) (by decide)]
      rfl
  induction sep generalizing s with
  | nil => exact absurd rfl hne
  | cons c sep ih =>
    have hc := hclean (hsep c List.mem_cons_self)
    have hnil : nameTokens u [] = [] := rfl
    by_cases hlast : sep = []
    · rw [hlast, List.append_assoc, List.singleton_append, nameTokens_append_cons hc]
    · have hrest := ih hlast (fun d hd => hsep d (List.mem_cons_of_mem c hd)) (s ++ [c])
      rw [nameTokens_append_cons hc, hnil, List.append_nil] at hrest
      rw [← hrest, List.append_assoc s [c]]
      rfl

/-- **When a legal suffix does not count**: behind a name that has another word, after spaces or
commas, in any case and with or without a point, exactly if it is not the one that is written with
points. -/
theorem normaliseName_append_iff (u : Unicode) {n sep t dot : Text} {s : String}
    (hn : ∃ w ∈ nameTokens u n, isLegalSuffix w = false) (hne : sep ≠ [])
    (hsep : ∀ c ∈ sep, c = ' ' ∨ c = ',') (hs : s ∈ legalSuffixes)
    (ht : t.map Char.toLower = s.toList) (hdot : dot = [] ∨ dot = ['.']) :
    normaliseName u (some (n ++ sep ++ (t ++ dot))) = normaliseName u (some n) ↔ s ≠ "l.l.c" := by
  have hkept : ¬ (keptTokens (nameTokens u n)).isEmpty = true := by
    obtain ⟨w, hw, hsuffix⟩ := hn
    rw [List.isEmpty_iff]
    exact List.ne_nil_of_mem (List.mem_filter.mpr ⟨hw, by simp [hsuffix]⟩)
  have htokens : keptTokens (nameTokens u (n ++ sep ++ (t ++ dot))) = keptTokens (nameTokens u n) ++
      if s = "l.l.c" then [['l'], ['l'], ['c']] else [] := by
    have hsuffix : ∀ s ∈ legalSuffixes,
        keptTokens (if s = "l.l.c" then [['l'], ['l'], ['c']] else [s.toList]) =
          if s = "l.l.c" then [['l'], ['l'], ['c']] else [] := by
      decide
    rw [nameTokens_separated hne hsep, nameTokens_suffix hs ht hdot, keptTokens, List.filter_append]
    exact congrArg _ (hsuffix s hs)
  have hchosen : ¬ (keptTokens (nameTokens u (n ++ sep ++ (t ++ dot)))).isEmpty = true := by
    rw [htokens, List.isEmpty_iff]
    rw [List.isEmpty_iff] at hkept
    exact fun h => hkept (List.append_eq_nil_iff.mp h).1
  rw [normaliseName_some, normaliseName_some, chosenTokens, chosenTokens, if_neg hkept,
    if_neg hchosen]
  constructor
  · rintro hsame rfl
    -- the names have the same words, so there can be no more of them
    have hwords (v : Text) : nameTokens u ([' '].intercalate (keptTokens (nameTokens u v))) =
        keptTokens (nameTokens u v) :=
      nameTokens_join fun w hw => of_mem_nameTokens (List.mem_filter.mp hw).1
    have heq := congrArg (nameTokens u) hsame
    rw [hwords, hwords, htokens] at heq
    simp at heq
  · intro hs
    rw [htokens, if_neg hs, List.append_nil]

/-- A name, with a suffix that does not count. -/
theorem normaliseName_append_inc :
    normaliseName .plain (some "ABC Plumbing, Inc.".toList) =
      normaliseName .plain (some "ABC Plumbing".toList) :=
  (@normaliseName_append_iff .plain "ABC Plumbing".toList ", ".toList "Inc".toList ".".toList "inc"
    (by decide) (by decide)
    (List.forall_mem_cons.mpr ⟨.inr rfl, List.forall_mem_singleton.mpr (.inl rfl)⟩) (by decide)
    (by decide) (.inr rfl)).mpr (by decide)

/-- **A suffix that counts**: without its points it is three letters, and none of them is a
suffix. -/
theorem normaliseName_append_points :
    (∃ w ∈ nameTokens .plain "ABC Plumbing".toList, isLegalSuffix w = false) ∧
      "l.l.c" ∈ legalSuffixes ∧ "L.L.C".toList.map Char.toLower = "l.l.c".toList ∧
      normaliseName .plain (some "ABC Plumbing L.L.C.".toList) = "abc plumbing l l c".toList ∧
      normaliseName .plain (some "ABC Plumbing L.L.C.".toList) ≠
        normaliseName .plain (some "ABC Plumbing".toList) := by
  decide

end Normalise

/-! ### The edit distance -/

/-- The next row of the table: what its first `j` entries are decides the one after them. -/
def nextRow (previous : List ℕ) (i : ℕ) (ca : Char) (b : Text) : List ℕ :=
  (b.zipIdx 1).foldl
    (fun current e => current ++
      [min (min (previous.getD e.2 0 + 1) (current.getD (e.2 - 1) 0 + 1))
        (previous.getD (e.2 - 1) 0 + if ca = e.1 then 0 else 1)])
    [i]

/-- **`_levenshtein`**: the edit distance, from two rows of the table. -/
def levenshtein (a b : Text) : ℕ :=
  if a = b then 0
  else if a.isEmpty then b.length
  else if b.isEmpty then a.length
  else ((a.zipIdx 1).foldl (fun previous e => nextRow previous e.2 e.1 b)
    (List.range (b.length + 1))).getLastD 0

/-- The row of a prefix: its distances from all prefixes of the other text. -/
def distances (a b : Text) : List ℕ :=
  (List.range (b.length + 1)).map fun j => EditDistance.distance a (b.take j)

theorem getD_distances (a : Text) {b : Text} {j : ℕ} (hj : j ≤ b.length) :
    (distances a b).getD j 0 = EditDistance.distance a (b.take j) := by
  rw [distances, List.getD_eq_getElem?_getD, List.getElem?_map,
    List.getElem?_range (Nat.lt_succ_of_le hj)]
  rfl

theorem distances_nil (b : Text) : distances [] b = List.range (b.length + 1) := by
  rw [distances, List.map_congr_left (g := id), List.map_id]
  intro j hj
  rw [List.mem_range] at hj
  rw [EditDistance.distance_nil_left, List.length_take, min_eq_left (by omega)]
  rfl

theorem distances_concat (a b : Text) (d : Char) :
    distances a (b ++ [d]) = distances a b ++ [EditDistance.distance a (b ++ [d])] := by
  rw [distances, List.length_append, List.length_singleton, List.range_succ, List.map_append,
    List.map_singleton, List.take_of_length_le (by simp), distances]
  congr 1
  refine List.map_congr_left fun j hj => ?_
  rw [List.mem_range] at hj
  rw [List.take_append_of_le_length (by omega)]

/-- Within a row: what is behind `b` is put behind the distances from the prefixes of `b`. -/
theorem foldl_distances (a : Text) (c : Char) (b rest : Text) :
    (rest.zipIdx (b.length + 1)).foldl
      (fun current e => current ++
        [min (min ((distances a (b ++ rest)).getD e.2 0 + 1) (current.getD (e.2 - 1) 0 + 1))
          ((distances a (b ++ rest)).getD (e.2 - 1) 0 + if c = e.1 then 0 else 1)])
      (distances (a ++ [c]) b) = distances (a ++ [c]) (b ++ rest) := by
  induction rest generalizing b with
  | nil => rw [List.append_nil]; rfl
  | cons d rest ih =>
    have hnext : distances (a ++ [c]) b ++
        [min (min ((distances a (b ++ d :: rest)).getD (b.length + 1) 0 + 1)
            ((distances (a ++ [c]) b).getD b.length 0 + 1))
          ((distances a (b ++ d :: rest)).getD b.length 0 + if c = d then 0 else 1)] =
        distances (a ++ [c]) (b ++ [d]) := by
      have htake : (b ++ d :: rest).take (b.length + 1) = b ++ [d] := by
        rw [List.take_length_add_append]
        rfl
      rw [getD_distances a (by simp), getD_distances a (by simp), getD_distances _ le_rfl, htake,
        List.take_left', List.take_length, distances_concat, EditDistance.distance_concat,
        EditDistance.cost]
      rfl
    rw [List.zipIdx_cons, List.foldl_cons]
    simp only [Nat.add_sub_cancel]
    rw [hnext]
    have hrest := ih (b ++ [d])
    rw [List.length_append, List.length_singleton, List.append_assoc] at hrest
    exact hrest

/-- **A row leads to the next one.** -/
theorem nextRow_distances (a b : Text) (c : Char) :
    nextRow (distances a b) (a.length + 1) c b = distances (a ++ [c]) b := by
  have hhead : [a.length + 1] = distances (a ++ [c]) [] := by
    simp [distances]
  rw [nextRow, hhead]
  exact foldl_distances a c [] b

/-- All rows, from the one of a prefix on. -/
theorem foldl_nextRow (a rest b : Text) :
    (rest.zipIdx (a.length + 1)).foldl (fun previous e => nextRow previous e.2 e.1 b)
      (distances a b) = distances (a ++ rest) b := by
  induction rest generalizing a with
  | nil => rw [List.append_nil]; rfl
  | cons c rest ih =>
    rw [List.zipIdx_cons, List.foldl_cons]
    simp only
    rw [nextRow_distances]
    have hrest := ih (a ++ [c])
    rw [List.length_append, List.length_singleton, List.append_assoc] at hrest
    exact hrest

/-- **What the table computes is the edit distance.** -/
theorem levenshtein_eq_distance (a b : Text) : levenshtein a b = EditDistance.distance a b := by
  rw [levenshtein]
  split
  · rename_i h
    rw [h, EditDistance.distance_self]
  split
  · rename_i h
    rw [List.isEmpty_iff.mp h, EditDistance.distance_nil_left]
  split
  · rename_i h
    rw [List.isEmpty_iff.mp h, EditDistance.distance_nil_right]
  · rw [← distances_nil]
    have htable := foldl_nextRow [] a b
    rw [List.length_nil, Nat.zero_add, List.nil_append] at htable
    rw [htable, List.getLastD_eq_getLast?, distances, List.range_succ, List.map_append,
      List.map_singleton, List.getLast?_concat, List.take_length]
    rfl

/-! ### Ratios -/

/-- **Rounding to a floating-point number**, of which 0 and 1 are two. -/
structure Rounding where
  round : ℚ → ℚ
  mono : Monotone round
  round_zero : round 0 = 0
  round_one : round 1 = 1

/-- Nothing is rounded. -/
def Rounding.exact : Rounding where
  round := id
  mono := monotone_id
  round_zero := rfl
  round_one := rfl

section Ratio

variable (r : Rounding)

/-- **`levenshtein_ratio`**. -/
def levenshteinRatio (a b : Text) : ℚ :=
  if a.isEmpty && b.isEmpty then 0
  else if max a.length b.length = 0 then 0
  else r.round (1 - r.round (levenshtein a b / max a.length b.length))

/-- Words in their order, with spaces between them. -/
def sortedWords (s : Finset Text) : Text := [' '].intercalate s.sort

/-- The shared words, and the words of the first alone behind them. -/
def combined (ta tb : Finset Text) : Text :=
  strip (sortedWords (ta ∩ tb) ++ ' ' :: sortedWords (ta \ tb))

/-- **`token_set_ratio`**. -/
def tokenSetRatio (a b : Text) : ℚ :=
  let ta := (splitSpaces a).toFinset
  let tb := (splitSpaces b).toFinset
  if ta = ∅ ∨ tb = ∅ then 0
  else if (sortedWords (ta ∩ tb)).isEmpty then
    levenshteinRatio r (combined ta tb) (combined tb ta)
  else
    max (max (levenshteinRatio r (sortedWords (ta ∩ tb)) (combined ta tb))
      (levenshteinRatio r (sortedWords (ta ∩ tb)) (combined tb ta)))
      (levenshteinRatio r (combined ta tb) (combined tb ta))

/-- **`name_similarity`**: the better of the two measures. -/
def nameSimilarity (u : Unicode) (contractorName placeName : Text) : ℚ :=
  let a := normaliseName u (some contractorName)
  let b := normaliseName u (some placeName)
  if a.isEmpty || b.isEmpty then 0 else max (levenshteinRatio r a b) (tokenSetRatio r a b)

/-- **A similarity**: from 0 to 1, and the same from both sides. -/
structure IsSimilarity (f : Text → Text → ℚ) : Prop where
  nonneg : ∀ a b, 0 ≤ f a b
  le_one : ∀ a b, f a b ≤ 1
  symm : ∀ a b, f a b = f b a

variable {r}

theorem Rounding.round_nonneg {x : ℚ} (h : 0 ≤ x) : 0 ≤ r.round x := r.round_zero ▸ r.mono h

theorem Rounding.round_le_one {x : ℚ} (h : x ≤ 1) : r.round x ≤ 1 := by
  have hmono := r.mono h
  rwa [r.round_one] at hmono

theorem levenshtein_comm (a b : Text) : levenshtein a b = levenshtein b a := by
  rw [levenshtein_eq_distance, levenshtein_eq_distance, EditDistance.distance_comm]

/-- A part of the longer text. -/
theorem levenshtein_div_mem (a b : Text) :
    0 ≤ (levenshtein a b : ℚ) / (max a.length b.length : ℕ) ∧
      (levenshtein a b : ℚ) / (max a.length b.length : ℕ) ≤ 1 := by
  have hle : (levenshtein a b : ℚ) ≤ (max a.length b.length : ℕ) := by
    rw [levenshtein_eq_distance]
    exact Nat.cast_le.mpr (EditDistance.distance_le_max a b)
  exact ⟨div_nonneg (Nat.cast_nonneg _) (Nat.cast_nonneg _),
    div_le_one_of_le₀ hle (Nat.cast_nonneg _)⟩

theorem isSimilarity_levenshteinRatio (r : Rounding) : IsSimilarity (levenshteinRatio r) where
  nonneg := by
    intro a b
    rw [levenshteinRatio]
    split
    · exact le_rfl
    split
    · exact le_rfl
    · have hround := r.round_le_one (levenshtein_div_mem a b).2
      exact r.round_nonneg (sub_nonneg.mpr hround)
  le_one := by
    intro a b
    rw [levenshteinRatio]
    split
    · exact zero_le_one
    split
    · exact zero_le_one
    · have hround := r.round_nonneg (levenshtein_div_mem a b).1
      exact r.round_le_one (sub_le_self 1 hround)
  symm := by
    intro a b
    rw [levenshteinRatio, levenshteinRatio, levenshtein_comm, max_comm, Bool.and_comm]

/-- A text is as much like itself as can be. -/
theorem levenshteinRatio_self {a : Text} (ha : a ≠ []) : levenshteinRatio r a a = 1 := by
  have hempty : a.isEmpty = false := by simpa using ha
  have hlength : ¬ a.length = 0 := fun h => ha (List.length_eq_zero_iff.mp h)
  rw [levenshteinRatio, hempty, max_self, if_neg hlength, levenshtein, if_pos rfl,
    Nat.cast_zero, zero_div, r.round_zero, sub_zero, r.round_one]
  rfl

theorem isSimilarity_tokenSetRatio (r : Rounding) : IsSimilarity (tokenSetRatio r) where
  nonneg := by
    intro a b
    rw [tokenSetRatio]
    split
    · exact le_rfl
    split
    · exact (isSimilarity_levenshteinRatio r).nonneg _ _
    · exact le_max_of_le_right ((isSimilarity_levenshteinRatio r).nonneg _ _)
  le_one := by
    intro a b
    rw [tokenSetRatio]
    split
    · exact zero_le_one
    split
    · exact (isSimilarity_levenshteinRatio r).le_one _ _
    · refine max_le (max_le ?_ ?_) ?_ <;> exact (isSimilarity_levenshteinRatio r).le_one _ _
  symm := by
    intro a b
    simp only [tokenSetRatio]
    by_cases hempty : (splitSpaces a).toFinset = ∅ ∨ (splitSpaces b).toFinset = ∅
    · rw [if_pos hempty, if_pos hempty.symm]
    · have hempty' : ¬ ((splitSpaces b).toFinset = ∅ ∨ (splitSpaces a).toFinset = ∅) :=
        fun h => hempty h.symm
      rw [if_neg hempty, if_neg hempty', Finset.inter_comm (splitSpaces a).toFinset,
        (isSimilarity_levenshteinRatio r).symm (combined (splitSpaces a).toFinset _),
        max_comm (levenshteinRatio r _ (combined (splitSpaces a).toFinset _))]

theorem isSimilarity_nameSimilarity (r : Rounding) (u : Unicode) :
    IsSimilarity (nameSimilarity r u) where
  nonneg := by
    intro a b
    rw [nameSimilarity]
    split
    · exact le_rfl
    · exact le_max_of_le_left ((isSimilarity_levenshteinRatio r).nonneg _ _)
  le_one := by
    intro a b
    rw [nameSimilarity]
    split
    · exact zero_le_one
    · exact max_le ((isSimilarity_levenshteinRatio r).le_one _ _)
        ((isSimilarity_tokenSetRatio r).le_one _ _)
  symm := by
    intro a b
    simp only [nameSimilarity]
    rw [Bool.or_comm, (isSimilarity_levenshteinRatio r).symm, (isSimilarity_tokenSetRatio r).symm]

/-- Names that are the same but for case, accents, punctuation and legal suffixes. -/
theorem nameSimilarity_eq_one {u : Unicode} {a b : Text}
    (h : normaliseName u (some a) = normaliseName u (some b)) (hne : normaliseName u (some a) ≠ []) :
    nameSimilarity r u a b = 1 := by
  have hempty : (normaliseName u (some b)).isEmpty = false := by
    rw [← h]
    simpa using hne
  rw [nameSimilarity, h, hempty, levenshteinRatio_self (h ▸ hne)]
  exact max_eq_left ((isSimilarity_tokenSetRatio r).le_one _ _)

/-- **Name similarity is a similarity**: the edit distance is the least number of edits, the ratios
and the similarity are similarities, the similarity is 1 for names that are normalised alike and not
to nothing, nothing but the normalised names counts, and they are normalised. -/
theorem nameSimilarity_sound (u : Unicode) (r : Rounding) :
    (∀ a b, IsLeast {n | EditDistance.Edits n a b} (levenshtein a b)) ∧
      IsSimilarity (levenshteinRatio r) ∧ IsSimilarity (tokenSetRatio r) ∧
      IsSimilarity (nameSimilarity r u) ∧
      (∀ a b, normaliseName u (some a) = normaliseName u (some b) →
        normaliseName u (some a) ≠ [] → nameSimilarity r u a b = 1) ∧
      (∀ a a' b b', normaliseName u (some a) = normaliseName u (some a') →
        normaliseName u (some b) = normaliseName u (some b') →
          nameSimilarity r u a b = nameSimilarity r u a' b') ∧
      ∀ a, normaliseName u (some (normaliseName u a)) = normaliseName u a := by
  refine ⟨?_, isSimilarity_levenshteinRatio r, isSimilarity_tokenSetRatio r,
    isSimilarity_nameSimilarity r u, fun a b => nameSimilarity_eq_one, ?_,
    normaliseName_normaliseName⟩
  · intro a b
    rw [levenshtein_eq_distance]
    exact EditDistance.isLeast_distance a b
  · intro a a' b b' ha hb
    rw [nameSimilarity, nameSimilarity, ha, hb]

end Ratio

end Marketplace.Enrichment
