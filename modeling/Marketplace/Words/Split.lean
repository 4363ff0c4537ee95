import Mathlib.Data.List.Induction
import Mathlib.Tactic.Common

/-!
# Words

What is between separators, and is not empty, is a word (`Words.split`). The words of a list do not
change when runs of separators are made one separator (`Words.collapse`) or when the ends are
trimmed (`Words.trim`), and the words of two lists with a separator between them are the words of
both (`Words.split_append_cons`). Words that are joined by a separator are found again
(`Words.split_join`), and so are words that each have a separator after them, which may be empty
(`Words.flatMap_concat_inj`).
-/

namespace Words

variable {α : Type*} {p q : α → Bool} {c sep : α} {s t w : List α}

/-! ### Splitting -/

/-- **The words of a list**: what is between separators, and is not empty. -/
def split (p : α → Bool) (s : List α) : List (List α) := (s.splitOnP p).filter fun w => !w.isEmpty

@[simp] theorem split_nil (p : α → Bool) : split p [] = [] := rfl

/-- Two lists with a separator between them. -/
theorem split_append_cons (hsep : p sep = true) (s t : List α) :
    split p (s ++ sep :: t) = split p s ++ split p t := by
  rw [split, List.splitOnP_append_cons s t hsep, List.filter_append]
  rfl

theorem split_cons (hsep : p sep = true) (s : List α) : split p (sep :: s) = split p s :=
  split_append_cons hsep [] s

theorem split_concat (hsep : p sep = true) (s : List α) : split p (s ++ [sep]) = split p s := by
  rw [split_append_cons hsep, split_nil, List.append_nil]

/-- A list without separators is a word, or empty. -/
theorem split_word (hw : w ≠ []) (h : ∀ c ∈ w, p c = false) : split p w = [w] := by
  rw [split, List.splitOnP_eq_singleton h]
  simpa using hw

/-- The pieces depend on which elements are separators only. -/
theorem splitOnP_congr (h : ∀ c ∈ s, p c = q c) : s.splitOnP p = s.splitOnP q := by
  induction s with
  | nil => rfl
  | cons c s ih =>
    rw [List.splitOnP_cons_eq_if_modifyHead, List.splitOnP_cons_eq_if_modifyHead,
      h c List.mem_cons_self, ih fun d hd => h d (List.mem_cons_of_mem c hd)]

theorem split_congr (h : ∀ c ∈ s, p c = q c) : split p s = split q s := by
  rw [split, split, splitOnP_congr h]

/-- What is in a piece is in the list, and is no separator. -/
theorem of_mem_splitOnP (hw : w ∈ s.splitOnP p) : ∀ c ∈ w, c ∈ s ∧ p c = false := by
  induction s generalizing w with
  | nil =>
    rw [List.splitOnP_nil, List.mem_singleton] at hw
    simp [hw]
  | cons d s ih =>
    obtain ⟨v, vs, hvs⟩ := List.exists_cons_of_ne_nil (List.splitOnP_ne_nil p s)
    rw [hvs] at ih
    rw [List.splitOnP_cons_eq_if_modifyHead, hvs] at hw
    have hmem {u : List α} (hu : u ∈ v :: vs) : ∀ c ∈ u, c ∈ d :: s ∧ p c = false :=
      fun c hc => ⟨List.mem_cons_of_mem d (ih hu c hc).1, (ih hu c hc).2⟩
    by_cases hd : p d = true
    · rw [if_pos hd, List.mem_cons] at hw
      rcases hw with rfl | hw
      · simp
      · exact hmem hw
    · rw [if_neg hd, List.modifyHead_cons, List.mem_cons] at hw
      rcases hw with rfl | hw
      · intro c hc
        rcases List.mem_cons.mp hc with rfl | hc
        · exact ⟨List.mem_cons_self, eq_false_of_ne_true hd⟩
        · exact hmem List.mem_cons_self c hc
      · exact hmem (List.mem_cons_of_mem v hw)

theorem ne_nil_of_mem_split (hw : w ∈ split p s) : w ≠ [] := by
  have h := (List.mem_filter.mp hw).2
  simpa using h

theorem of_mem_split (hw : w ∈ split p s) : ∀ c ∈ w, c ∈ s ∧ p c = false :=
  of_mem_splitOnP (List.mem_filter.mp hw).1

/-- What is in joined words is the separator, or in a word. -/
theorem mem_join {ws : List (List α)} (h : c ∈ [sep].intercalate ws) : c = sep ∨ ∃ w ∈ ws, c ∈ w := by
  induction ws with
  | nil => simp at h
  | cons w ws ih =>
    cases ws with
    | nil =>
      rw [List.intercalate_singleton] at h
      exact .inr ⟨w, List.mem_cons_self, h⟩
    | cons v ws =>
      rw [List.intercalate_cons_cons, List.append_assoc, List.mem_append, List.singleton_append,
        List.mem_cons] at h
      rcases h with h | h | h
      · exact .inr ⟨w, List.mem_cons_self, h⟩
      · exact .inl h
      · rcases ih h with h | ⟨x, hx, hc⟩
        · exact .inl h
        · exact .inr ⟨x, List.mem_cons_of_mem w hx, hc⟩

/-- **Words that are joined are found again.** -/
theorem split_join (hsep : p sep = true) {ws : List (List α)} (hne : ∀ w ∈ ws, w ≠ [])
    (hws : ∀ w ∈ ws, ∀ c ∈ w, p c = false) : split p ([sep].intercalate ws) = ws := by
  induction ws with
  | nil => rfl
  | cons w ws ih =>
    have hw := split_word (hne w List.mem_cons_self) (hws w List.mem_cons_self)
    have hrest := ih (fun v hv => hne v (List.mem_cons_of_mem w hv))
      fun v hv => hws v (List.mem_cons_of_mem w hv)
    cases ws with
    | nil => rw [List.intercalate_singleton, hw]
    | cons v ws =>
      rw [List.intercalate_cons_cons, List.append_assoc, List.singleton_append,
        split_append_cons hsep, hw, hrest]
      rfl

/-- What is before the first separator, and what is after it. -/
theorem append_cons_inj (hs : sep ∉ s) (ht : sep ∉ t) {u v : List α}
    (h : s ++ sep :: u = t ++ sep :: v) : s = t ∧ u = v := by
  induction s generalizing t with
  | nil =>
    cases t with
    | nil => exact ⟨rfl, (List.cons.inj h).2⟩
    | cons d t => exact absurd ((List.cons.inj h).1 ▸ List.mem_cons_self) ht
  | cons c s ih =>
    cases t with
    | nil => exact absurd ((List.cons.inj h).1 ▸ List.mem_cons_self) hs
    | cons d t =>
      obtain ⟨rfl, htail⟩ := List.cons.inj h
      obtain ⟨rfl, hrest⟩ := ih (fun hmem => hs (List.mem_cons_of_mem c hmem))
        (fun hmem => ht (List.mem_cons_of_mem c hmem)) htail
      exact ⟨rfl, hrest⟩

/-- **Words with a separator after each of them are found again**, be they empty or not. -/
theorem flatMap_concat_inj {ws vs : List (List α)} (hws : ∀ w ∈ ws, sep ∉ w)
    (hvs : ∀ w ∈ vs, sep ∉ w) (h : ws.flatMap (· ++ [sep]) = vs.flatMap (· ++ [sep])) : ws = vs := by
  induction ws generalizing vs with
  | nil =>
    cases vs with
    | nil => rfl
    | cons v vs => simp at h
  | cons w ws ih =>
    cases vs with
    | nil => simp at h
    | cons v vs =>
      simp only [List.flatMap_cons, List.append_assoc, List.singleton_append] at h
      obtain ⟨rfl, hrest⟩ := append_cons_inj (hws w List.mem_cons_self) (hvs v List.mem_cons_self) h
      rw [ih (fun u hu => hws u (List.mem_cons_of_mem w hu))
        (fun u hu => hvs u (List.mem_cons_of_mem w hu)) hrest]

/-! ### Trimming -/

/-- What is left when both ends are trimmed. -/
def trim (p : α → Bool) (s : List α) : List α := ((s.dropWhile p).reverse.dropWhile p).reverse

theorem mem_of_mem_trim (h : c ∈ trim p s) : c ∈ s := by
  rw [trim, List.mem_reverse] at h
  have h' := (List.dropWhile_sublist p).mem h
  rw [List.mem_reverse] at h'
  exact (List.dropWhile_sublist p).mem h'

/-- What is trimmed does not end with a separator. -/
theorem getLast?_trim (h : c ∈ (trim p s).getLast?) : p c = false := by
  have hnot := List.head?_dropWhile_not p (s.dropWhile p).reverse
  rw [trim, List.getLast?_reverse] at h
  rw [Option.mem_def.mp h] at hnot
  simpa using hnot

theorem trim_sublist (p : α → Bool) (s : List α) : (trim p s).Sublist s := by
  have hback := (List.dropWhile_sublist p (l := (s.dropWhile p).reverse)).reverse
  rw [List.reverse_reverse] at hback
  exact hback.trans (List.dropWhile_sublist p)

/-- Separators at the front are in no word. -/
theorem split_dropWhile (h : ∀ c ∈ s, q c = true → p c = true) :
    split p (s.dropWhile q) = split p s := by
  induction s with
  | nil => rfl
  | cons c s ih =>
    by_cases hc : q c = true
    · rw [List.dropWhile_cons_of_pos hc, ih fun d hd => h d (List.mem_cons_of_mem c hd),
        split_cons (h c List.mem_cons_self hc)]
    · rw [List.dropWhile_cons_of_neg hc]

/-- Nor are separators at the end. -/
theorem split_dropWhile_reverse (h : ∀ c ∈ s, q c = true → p c = true) :
    split p (s.reverse.dropWhile q).reverse = split p s := by
  induction s using List.reverseRecOn with
  | nil => rfl
  | append_singleton s c ih =>
    rw [List.reverse_concat]
    by_cases hc : q c = true
    · rw [List.dropWhile_cons_of_pos hc, ih fun d hd => h d (List.mem_append_left [c] hd),
        split_concat (h c (List.mem_append_right s (List.mem_singleton_self c)) hc)]
    · rw [List.dropWhile_cons_of_neg hc, List.reverse_cons, List.reverse_reverse]

/-- **Trimming changes no word.** -/
theorem split_trim (h : ∀ c ∈ s, q c = true → p c = true) : split p (trim q s) = split p s := by
  rw [trim, split_dropWhile_reverse fun c hc => h c ((List.dropWhile_sublist q).mem hc),
    split_dropWhile h]

/-- What neither begins nor ends with a separator is not trimmed. -/
theorem trim_eq_self (hhead : ∀ c ∈ s.head?, p c = false) (hlast : ∀ c ∈ s.getLast?, p c = false) :
    trim p s = s := by
  have hdrop {t : List α} (ht : ∀ c ∈ t.head?, p c = false) : t.dropWhile p = t := by
    cases t with
    | nil => rfl
    | cons c t =>
      have hc : p c = false := ht c rfl
      exact List.dropWhile_cons_of_neg (by simp [hc])
  rw [trim, hdrop hhead, hdrop (by rwa [List.head?_reverse]), List.reverse_reverse]

/-! ### Collapsing -/

/-- Runs of separators become one; the flag is that the last element was in one. -/
def collapseFrom (p : α → Bool) (sep : α) : Bool → List α → List α
  | _, [] => []
  | true, c :: s => if p c then collapseFrom p sep true s else c :: collapseFrom p sep false s
  | false, c :: s =>
    if p c then sep :: collapseFrom p sep true s else c :: collapseFrom p sep false s

/-- **Every run of separators becomes one separator.** -/
def collapse (p : α → Bool) (sep : α) (s : List α) : List α := collapseFrom p sep false s

/-- What separates after collapsing is the one separator. -/
theorem mem_collapseFrom {f : Bool} (h : c ∈ collapseFrom p sep f s) : c = sep ∨ p c = false := by
  induction s generalizing f with
  | nil => cases f <;> simp [collapseFrom] at h
  | cons d s ih =>
    by_cases hd : p d = true
    · cases f with
      | false =>
        rw [collapseFrom, if_pos hd, List.mem_cons] at h
        exact h.elim .inl ih
      | true =>
        rw [collapseFrom, if_pos hd] at h
        exact ih h
    · have hkeep : c ∈ d :: collapseFrom p sep false s := by
        cases f <;> rwa [collapseFrom, if_neg hd] at h
      rcases List.mem_cons.mp hkeep with rfl | hmem
      · exact .inr (eq_false_of_ne_true hd)
      · exact ih hmem

/-- The first piece and the words after it, and the words behind a separator: the two are carried
together, since the one that is in a run goes over to the other at its end. -/
theorem split_collapseFrom (hsep : p sep = true) (s : List α) :
    (∃ v vs vs', (collapseFrom p sep false s).splitOnP p = v :: vs ∧ s.splitOnP p = v :: vs' ∧
      vs.filter (fun w => !w.isEmpty) = vs'.filter fun w => !w.isEmpty) ∧
      split p (collapseFrom p sep true s) = split p s := by
  induction s with
  | nil => exact ⟨⟨[], [], [], rfl, rfl, rfl⟩, rfl⟩
  | cons c s ih =>
    obtain ⟨⟨v, vs, vs', hcollapsed, hplain, hwords⟩, hrun⟩ := ih
    by_cases hc : p c = true
    · refine ⟨⟨[], (collapseFrom p sep true s).splitOnP p, s.splitOnP p, ?_, ?_, hrun⟩, ?_⟩
      · rw [collapseFrom, if_pos hc, List.splitOnP_cons_eq_if_modifyHead, if_pos hsep]
      · rw [List.splitOnP_cons_eq_if_modifyHead, if_pos hc]
      · rw [collapseFrom, if_pos hc, hrun, split_cons hc]
    · have hcollapsed' : (c :: collapseFrom p sep false s).splitOnP p = (c :: v) :: vs := by
        rw [List.splitOnP_cons_eq_if_modifyHead, if_neg hc, hcollapsed]
        rfl
      have hplain' : (c :: s).splitOnP p = (c :: v) :: vs' := by
        rw [List.splitOnP_cons_eq_if_modifyHead, if_neg hc, hplain]
        rfl
      refine ⟨⟨c :: v, vs, vs', ?_, hplain', hwords⟩, ?_⟩
      · rw [collapseFrom, if_neg hc, hcollapsed']
      · rw [collapseFrom, if_neg hc, split, split, hcollapsed', hplain', List.filter_cons_of_pos rfl,
          List.filter_cons_of_pos rfl, hwords]

/-- **Collapsing changes no word.** -/
theorem split_collapse (hsep : p sep = true) (s : List α) :
    split p (collapse p sep s) = split p s := by
  obtain ⟨⟨v, vs, vs', hcollapsed, hplain, hwords⟩, -⟩ := split_collapseFrom hsep s
  rw [collapse, split, split, hcollapsed, hplain, List.filter_cons, List.filter_cons, hwords]

end Words
