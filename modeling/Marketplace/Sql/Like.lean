import Mathlib.Data.List.Infix

/-!
# `LIKE`

A pattern is a text in which a percent sign stands for any text and an underscore for any one
character, and a backslash takes from the character after it what it stands for
(`Sql.like`). What a program puts into a pattern is matched as it is where it has none of the
three (`Sql.like_prefix_iff`, `Sql.like_infix_iff`), and else it is matched by texts that do not
have it (`Sql.exists_like_not_infix`).
-/

namespace Sql

/-- One character, and then the rest. -/
def next (ok : Char → Bool) (rest : List Char → Bool) : List Char → Bool
  | [] => false
  | c :: s => ok c && rest s

/-- **`s LIKE pattern`**. A backslash at the end of a pattern has no meaning, and is matched by
nothing. -/
def like : List Char → List Char → Bool
  | [], s => s.isEmpty
  | '%' :: p, s => s.tails.any (like p)
  | '_' :: p, s => next (fun _ => true) (like p) s
  | ['\\'], _ => false
  | '\\' :: c :: p, s => next (· = c) (like p) s
  | c :: p, s => next (· = c) (like p) s

example : like "a\\%b_%".toList "a%bcd".toList = true := by decide

/-- **A text that stands for itself in a pattern.** -/
def IsPlain (needle : List Char) : Prop := ∀ c ∈ needle, c ≠ '%' ∧ c ≠ '_' ∧ c ≠ '\\'

instance (needle : List Char) : Decidable (IsPlain needle) :=
  inferInstanceAs (Decidable (∀ c ∈ needle, c ≠ '%' ∧ c ≠ '_' ∧ c ≠ '\\'))

variable {c : Char} {p needle s : List Char}

theorem isPlain_cons : IsPlain (c :: needle) ↔ (c ≠ '%' ∧ c ≠ '_' ∧ c ≠ '\\') ∧ IsPlain needle :=
  List.forall_mem_cons

/-! ### What a pattern matches -/

theorem next_iff {ok : Char → Bool} {rest : List Char → Bool} :
    next ok rest s = true ↔ ∃ d t, s = d :: t ∧ ok d = true ∧ rest t = true := by
  rcases s with _ | ⟨d, t⟩
  · exact iff_of_false Bool.false_ne_true (by simp)
  · simp [next]

/-- A character that stands for itself. -/
theorem next_eq_iff {rest : List Char → Bool} :
    next (· = c) rest s = true ↔ ∃ t, s = c :: t ∧ rest t = true := by
  rw [next_iff]
  constructor
  · rintro ⟨d, t, rfl, hd, ht⟩
    obtain rfl := of_decide_eq_true hd
    exact ⟨t, rfl, ht⟩
  · rintro ⟨t, rfl, ht⟩
    exact ⟨c, t, rfl, decide_eq_true rfl, ht⟩

theorem like_any : like ('%' :: p) s = true ↔ ∃ t, t <:+ s ∧ like p t = true := by
  show s.tails.any (like p) = true ↔ _
  rw [List.any_eq_true]
  exact exists_congr fun t => and_congr_left fun _ => List.mem_tails t s

theorem like_one : like ('_' :: p) s = true ↔ ∃ d t, s = d :: t ∧ like p t = true := by
  show next (fun _ => true) (like p) s = true ↔ _
  simp [next_iff]

theorem like_escaped : like ('\\' :: c :: p) s = true ↔ ∃ t, s = c :: t ∧ like p t = true :=
  next_eq_iff

theorem like_cons (hc : c ≠ '%' ∧ c ≠ '_' ∧ c ≠ '\\') :
    like (c :: p) s = true ↔ ∃ t, s = c :: t ∧ like p t = true := by
  obtain ⟨hpercent, hunderscore, hbackslash⟩ := hc
  rw [like, next_eq_iff]
  · exact hpercent
  · exact hunderscore
  · exact fun h => absurd h hbackslash
  · exact fun _ _ h => absurd h hbackslash

/-- **What stands for itself is matched as it is**, whatever comes after it. -/
theorem like_append (h : IsPlain needle) :
    like (needle ++ p) s = true ↔ ∃ t, s = needle ++ t ∧ like p t = true := by
  induction needle generalizing s with
  | nil => simp
  | cons c needle ih =>
    obtain ⟨hc, hneedle⟩ := isPlain_cons.mp h
    rw [List.cons_append, like_cons hc]
    constructor
    · rintro ⟨t, rfl, ht⟩
      obtain ⟨u, rfl, hu⟩ := (ih hneedle).mp ht
      exact ⟨u, rfl, hu⟩
    · rintro ⟨u, rfl, hu⟩
      exact ⟨needle ++ u, rfl, (ih hneedle).mpr ⟨u, rfl, hu⟩⟩

theorem like_percent (s : List Char) : like ['%'] s = true :=
  like_any.mpr ⟨[], List.nil_suffix, rfl⟩

/-- **A pattern for what a text begins with.** -/
theorem like_prefix_iff (h : IsPlain needle) : like (needle ++ ['%']) s = true ↔ needle <+: s := by
  rw [like_append h]
  constructor
  · rintro ⟨t, rfl, -⟩
    exact List.prefix_append needle t
  · rintro ⟨t, rfl⟩
    exact ⟨t, rfl, like_percent t⟩

/-- **A pattern for what a text has in it.** -/
theorem like_infix_iff (h : IsPlain needle) :
    like ('%' :: (needle ++ ['%'])) s = true ↔ needle <:+: s := by
  rw [like_any]
  constructor
  · rintro ⟨t, hsuffix, ht⟩
    exact ((like_prefix_iff h).mp ht).isInfix.trans hsuffix.isInfix
  · rintro ⟨u, v, rfl⟩
    exact ⟨needle ++ v, ⟨u, (List.append_assoc u needle v).symm⟩,
      (like_prefix_iff h).mpr (List.prefix_append needle v)⟩

/-! ### What is not matched as it is -/

/-- A text that a pattern matches: a percent sign as nothing, an underscore as a letter. -/
def sample : List Char → List Char
  | [] => []
  | '%' :: p => sample p
  | '_' :: p => 'x' :: sample p
  | ['\\'] => ['%']
  | '\\' :: c :: p => c :: sample p
  | c :: p => c :: sample p

/-- **Induction over a pattern**, one case for each of its kinds of characters. -/
theorem pattern_induction {P : List Char → Prop} (nil : P []) (percent : ∀ p, P p → P ('%' :: p))
    (underscore : ∀ p, P p → P ('_' :: p)) (backslash : P ['\\'])
    (escaped : ∀ c p, P p → P ('\\' :: c :: p))
    (plain : ∀ c p, (c ≠ '%' ∧ c ≠ '_' ∧ c ≠ '\\') → P p → P (c :: p)) (p : List Char) : P p := by
  induction p using sample.induct with
  | case1 => exact nil
  | case2 p ih => exact percent p ih
  | case3 p ih => exact underscore p ih
  | case4 => exact backslash
  | case5 c p ih => exact escaped c p ih
  | case6 c p hpercent hunderscore hbackslash hescape ih =>
    refine plain c p ⟨hpercent, hunderscore, fun hc => ?_⟩ ih
    rcases p with _ | ⟨d, q⟩
    · exact hbackslash hc rfl
    · exact hescape d q hc rfl

theorem sample_cons (hc : c ≠ '%' ∧ c ≠ '_' ∧ c ≠ '\\') : sample (c :: p) = c :: sample p := by
  obtain ⟨hpercent, hunderscore, hbackslash⟩ := hc
  rw [sample]
  · exact hpercent
  · exact hunderscore
  · exact fun h => absurd h hbackslash
  · exact fun _ _ h => absurd h hbackslash

theorem length_sample_le (needle : List Char) : (sample needle).length ≤ needle.length := by
  induction needle using pattern_induction with
  | nil => exact le_refl 0
  | percent p ih => exact ih.trans (Nat.le_succ _)
  | underscore p ih => exact Nat.succ_le_succ ih
  | backslash => exact le_refl 1
  | escaped c p ih => exact (Nat.succ_le_succ ih).trans (Nat.le_succ _)
  | plain c p hc ih =>
    rw [sample_cons hc]
    exact Nat.succ_le_succ ih

/-- The pattern is that of a prefix, so that a backslash at the end takes the percent sign. -/
theorem like_sample (needle : List Char) : like (needle ++ ['%']) (sample needle) = true := by
  induction needle using pattern_induction with
  | nil => exact like_percent []
  | percent p ih => exact like_any.mpr ⟨sample p, List.suffix_refl _, ih⟩
  | underscore p ih => exact like_one.mpr ⟨'x', sample p, rfl, ih⟩
  | backslash => exact like_escaped.mpr ⟨[], rfl, rfl⟩
  | escaped c p ih => exact like_escaped.mpr ⟨sample p, rfl, ih⟩
  | plain c p hc ih =>
    rw [sample_cons hc, List.cons_append, like_cons hc]
    exact ⟨sample p, rfl, ih⟩

/-- Only what stands for itself is its own sample. -/
theorem isPlain_of_sample_eq (h : sample needle = needle) : IsPlain needle := by
  induction needle using pattern_induction with
  | nil => exact fun _ hc => absurd hc List.not_mem_nil
  | percent p ih =>
    have hle := length_sample_le p
    have hlength : (sample p).length = p.length + 1 := congrArg List.length h
    omega
  | underscore p ih => exact absurd (List.cons.inj h).1 (by decide)
  | backslash => exact absurd h (by decide)
  | escaped c p ih =>
    have hle := length_sample_le p
    have hlength : (sample p).length + 1 = p.length + 1 + 1 := congrArg List.length h
    omega
  | plain c p hc ih =>
    rw [sample_cons hc] at h
    exact isPlain_cons.mpr ⟨hc, ih (List.cons.inj h).2⟩

/-- **What does not stand for itself is matched by a text that does not have it.** -/
theorem exists_like_not_infix (h : ¬ IsPlain needle) :
    ∃ s, like (needle ++ ['%']) s = true ∧ ¬ needle <:+: s :=
  ⟨sample needle, like_sample needle, fun hfound =>
    h (isPlain_of_sample_eq (hfound.eq_of_length_le (length_sample_le needle)).symm)⟩

end Sql
