import Mathlib.Algebra.Order.Ring.Int
import Mathlib.Tactic.Common
import Marketplace.Auth.Text

/-!
# Rate limits

Requests are counted for a bucket in windows of a fixed length, which start where the epoch says
(`Marketplace.RateLimit.windowStart`). A hit reads the clock and later counts, in one statement; a
sweep reads the clock and later deletes counters whose window is over.

A hit may count in a window that is over when its statement runs, and finds no counter if a sweep
was there before it. So the window is counted from one again, and a bucket is within its limit,
whatever it is, exactly if no hit is counted for a counter that was swept
(`Marketplace.RateLimit.limited_iff`).
-/

namespace Marketplace.RateLimit

/-! ### Windows -/

/-- The second, in the microseconds that a timestamp is kept in. -/
def second : ℤ := 10 ^ 6

/-- The seconds of a window, one at least. -/
def windowSecs (window : ℤ) : ℤ := max (window / second) 1

/-- **Where a window starts**, counted from the epoch. -/
def windowStart (window now : ℤ) : ℤ :=
  (now / second - now / second % windowSecs window) * second

/-- The first instant that a timestamp can be. -/
def minInstant : ℤ := -8334601228800 * 10 ^ 6

/-- A counter: a row of `rate_limit_counters`. -/
structure Counter where
  count : ℕ
  expiresAt : ℤ

/-- The primary key of a counter: a bucket, and where its window starts. -/
abbrev Key := Digest × ℤ

/-- The counters, by their keys. -/
abbrev Table := Key → Option Counter

/-- **How a request stands.** -/
structure Decision where
  count : ℕ
  limit : ℤ
  windowStart : ℤ
  window : ℤ

namespace Decision

variable (d : Decision)

/-- `is_allowed`. -/
def isAllowed : Bool := (d.count : ℤ) ≤ d.limit

/-- `retry_after`: how long until the window is over, and a second at least. -/
def retryAfter (now : ℤ) : ℤ :=
  max (if d.windowStart + d.window - now < 0 then second else d.windowStart + d.window - now) second

end Decision

/-! ### Statements -/

/-- The upsert that counts a request: it adds one to the counter, or puts one there. -/
def upsert (t : Table) (k : Key) (expiresAt : ℤ) : Table × Except AppError ℕ :=
  if expiresAt ≤ k.2 then (t, .error (.internal "rate_limit_counters_expiry_after_window"))
  else
    match t k with
    | none => (Function.update t k (some ⟨1, expiresAt⟩), .ok 1)
    | some row =>
      if row.count < 2 ^ 31 - 1 then
        (Function.update t k (some { row with count := row.count + 1 }), .ok (row.count + 1))
      else (t, .error (.internal "integer out of range"))

/-- What a hit counts, and where. -/
def count (t : Table) (bucket : Digest) (window now : ℤ) : Table × Except AppError ℕ :=
  if windowStart window now < minInstant then
    (t, .error (.internal "window start is out of range"))
  else upsert t (bucket, windowStart window now) (windowStart window now + window)

/-- **`hit`**: a request is counted, and how it stands. -/
def hit (t : Table) (bucket : Digest) (limit window now : ℤ) : Table × Except AppError Decision :=
  ((count t bucket window now).1, (count t bucket window now).2.map fun n =>
    ⟨n, limit, windowStart window now, window⟩)

/-- **`enforce`**: how long to wait, if the request is over the limit. -/
def enforce (t : Table) (bucket : Digest) (limit window now : ℤ) :
    Table × Except AppError (Option ℤ) :=
  ((hit t bucket limit window now).1, (hit t bucket limit window now).2.map fun d =>
    if d.isAllowed then none else some (d.retryAfter now))

/-- The counter is there, and its window is over. -/
def isOver (t : Table) (now : ℤ) (k : Key) : Bool := (t k).any fun row => row.expiresAt ≤ now

/-- The counters that a sweep deletes, as many as it may, of those that it comes upon. -/
def victims (t : Table) (now : ℤ) (batch : ℕ) (found : List Key) : List Key :=
  (found.filter (isOver t now)).take batch

/-- **`sweep_expired`**. -/
def sweepExpired (t : Table) (now : ℤ) (batch : ℕ) (found : List Key) : Table :=
  fun k => if k ∈ victims t now batch found then none else t k

/-! ### Interleavings -/

/-- **A statement as it runs**, with the instant that its process read before: a hit for a bucket, or
a sweep, which comes upon counters in some order. -/
inductive Event
  | hit (bucket : Digest) (now : ℤ)
  | sweep (now : ℤ) (batch : ℕ) (found : List Key)

/-- A hit that was counted. -/
structure Counted where
  bucket : Digest
  now : ℤ
  count : ℕ

/-- **The counters**, and a record of the hits that were counted and of what was swept. -/
structure State where
  table : Table := fun _ => none
  counted : List Counted := []
  swept : List Key := []

section Runs

variable (window limit : Digest → ℤ)

/-- The key that a hit is counted under: a bucket has one policy, whose name is in it. -/
def keyOf (bucket : Digest) (now : ℤ) : Key := (bucket, windowStart (window bucket) now)

/-- The next statement runs. -/
def step (s : State) : Event → State
  | .hit bucket now =>
    match count s.table bucket (window bucket) now with
    | (t, .ok n) => { s with table := t, counted := s.counted ++ [⟨bucket, now, n⟩] }
    | (t, .error _) => { s with table := t }
  | .sweep now batch found =>
    { s with
      table := sweepExpired s.table now batch found
      swept := s.swept ++ victims s.table now batch found }

/-- **A run**: the statements of any processes, in the order in which they run. -/
def run (events : List Event) : State := events.foldl (step window) {}

/-- How a hit that was counted stands. -/
def Counted.decision (c : Counted) : Decision where
  count := c.count
  limit := limit c.bucket
  windowStart := windowStart (window c.bucket) c.now
  window := window c.bucket

/-- How many hits of a bucket and a window are allowed. -/
def allowed (s : State) (k : Key) : ℕ :=
  s.counted.countP fun c =>
    decide (keyOf window c.bucket c.now = k) && (c.decision window limit).isAllowed

/-- **Buckets are within their limits**, and who is not is told when to come back. -/
structure Limited (s : State) : Prop where
  at_most : ∀ k, allowed window limit s k ≤ (limit k.1).toNat
  retry : ∀ c ∈ s.counted, (c.decision window limit).isAllowed = false →
    second ≤ window c.bucket → second ≤ (c.decision window limit).retryAfter c.now ∧
      (c.decision window limit).retryAfter c.now ≤ window c.bucket

/-- **The statement is not late**: a hit does not count for a counter that was swept. -/
def Prompt (s : State) : Event → Prop
  | .hit bucket now => keyOf window bucket now ∉ s.swept
  | .sweep _ _ _ => True

/-- No statement of a run is late. -/
def AllPrompt : State → List Event → Prop
  | _, [] => True
  | s, e :: events => Prompt window s e ∧ AllPrompt (step window s e) events

end Runs

/-! ### Counting -/

variable {window limit : Digest → ℤ} {s : State} {t : Table} {k : Key}

/-- The count of a counter, none where there is none. -/
def standing (t : Table) (k : Key) : ℕ := (t k).elim 0 Counter.count

/-- What the statement of a hit can do: it counts the next request of a window, or fails. -/
theorem count_cases (t : Table) (bucket : Digest) (w now : ℤ) :
    (∃ e, count t bucket w now = (t, .error e)) ∨
      minInstant ≤ windowStart w now ∧ 0 < w ∧ ∃ row, row.count < 2 ^ 31 ∧
        row.count = standing t (bucket, windowStart w now) + 1 ∧
        row.expiresAt =
          (t (bucket, windowStart w now)).elim (windowStart w now + w) Counter.expiresAt ∧
          count t bucket w now =
            (Function.update t (bucket, windowStart w now) (some row), .ok row.count) := by
  rw [count, upsert, standing]
  by_cases hrange : windowStart w now < minInstant
  · exact .inl ⟨_, if_pos hrange⟩
  rw [if_neg hrange]
  by_cases hcheck : windowStart w now + w ≤ windowStart w now
  · exact .inl ⟨_, if_pos hcheck⟩
  rw [if_neg hcheck]
  have hpositive : 0 < w := by omega
  rcases hold : t (bucket, windowStart w now) with _ | old
  · exact .inr ⟨not_lt.mp hrange, hpositive, ⟨1, _⟩, Nat.one_lt_two_pow (by decide), rfl,
      rfl, rfl⟩
  · by_cases hword : old.count < 2 ^ 31 - 1
    · exact .inr ⟨not_lt.mp hrange, hpositive, { old with count := old.count + 1 },
        Nat.add_lt_of_lt_sub hword, rfl, rfl, if_pos hword⟩
    · exact .inl ⟨_, if_neg hword⟩

/-- The first request of a window is counted. -/
theorem step_of_none {bucket : Digest} {now : ℤ}
    (hvalid : minInstant ≤ (keyOf window bucket now).2 ∧ 0 < window bucket)
    (hnone : s.table (keyOf window bucket now) = none) :
    step window s (.hit bucket now) =
      { s with
        table := Function.update s.table (keyOf window bucket now)
          (some ⟨1, (keyOf window bucket now).2 + window bucket⟩)
        counted := s.counted ++ [⟨bucket, now, 1⟩] } := by
  obtain ⟨hrange, hpositive⟩ := hvalid
  have hin : ¬ windowStart (window bucket) now < minInstant := Int.not_lt.mpr hrange
  have hcheck : ¬ windowStart (window bucket) now + window bucket ≤
      windowStart (window bucket) now := by omega
  have hnone : s.table (bucket, windowStart (window bucket) now) = none := hnone
  simp only [step, count, if_neg hin, upsert, if_neg hcheck, hnone]
  rfl

/-- **What a hit can do**: it is counted under its key, as the next one, or nothing changes. -/
theorem step_hit (window : Digest → ℤ) (s : State) (bucket : Digest) (now : ℤ) :
    step window s (.hit bucket now) = s ∨
      minInstant ≤ (keyOf window bucket now).2 ∧ 0 < window bucket ∧
        ∃ row : Counter, row.count < 2 ^ 31 ∧
          row.count = standing s.table (keyOf window bucket now) + 1 ∧
          row.expiresAt = (s.table (keyOf window bucket now)).elim
            ((keyOf window bucket now).2 + window bucket) Counter.expiresAt ∧
            step window s (.hit bucket now) =
              { s with
                table := Function.update s.table (keyOf window bucket now) (some row)
                counted := s.counted ++ [⟨bucket, now, row.count⟩] } := by
  rcases count_cases s.table bucket (window bucket) now with ⟨e, hcount⟩ |
    ⟨hrange, hpositive, row, hword, hnext, hexpires, hcount⟩
  · exact .inl (by rw [step, hcount])
  · exact .inr ⟨hrange, hpositive, row, hword, hnext, hexpires, by rw [step, hcount]; rfl⟩

theorem mem_victims {now : ℤ} {batch : ℕ} {found : List Key} (h : k ∈ victims t now batch found) :
    ∃ row, t k = some row ∧ row.expiresAt ≤ now := by
  have hover := (List.mem_filter.mp (List.mem_of_mem_take h)).2
  obtain ⟨row, hrow, hle⟩ := (Option.any_eq_true _ _).mp hover
  exact ⟨row, hrow, of_decide_eq_true hle⟩

/-- How many hits of a key are counted up to a number. -/
def tally (window : Digest → ℤ) (s : State) (k : Key) (n : ℕ) : ℕ :=
  s.counted.countP fun c => decide (keyOf window c.bucket c.now = k) && decide (c.count ≤ n)

/-- One more hit is counted. -/
theorem tally_append {s' : State} {c : Counted} (h : s'.counted = s.counted ++ [c]) (k : Key)
    (n : ℕ) : tally window s' k n = tally window s k n +
      if keyOf window c.bucket c.now = k ∧ c.count ≤ n then 1 else 0 := by
  rw [tally, h, List.countP_append, List.countP_singleton, ← Bool.decide_and]
  simp only [decide_eq_true_iff]
  rfl

/-- **What holds of the counters at any time**: as long as a counter is not swept it has counted
every hit of its key, each under the next number. When it is swept, hits up to some number have been
counted under its key, and more than that when there is a counter again. -/
structure Tallied (window : Digest → ℤ) (s : State) : Prop where
  positive : ∀ c ∈ s.counted, 0 < c.count
  word : ∀ k, standing s.table k < 2 ^ 31
  standing_pos : ∀ k row, s.table k = some row → 0 < row.count
  valid : ∀ k, k ∈ s.swept ∨ s.table k ≠ none → minInstant ≤ k.2 ∧ 0 < window k.1
  unswept : ∀ k, k ∉ s.swept → ∀ n, tally window s k n = min (standing s.table k) n
  swept : ∀ k ∈ s.swept, ∃ n, 0 < n ∧ n < 2 ^ 31 ∧ n ≤ tally window s k n
  again : ∀ k ∈ s.swept, s.table k ≠ none → ∃ n, n < 2 ^ 31 ∧ n < tally window s k n

theorem tallied_empty : Tallied window {} where
  positive := nofun
  word := fun _ => Nat.two_pow_pos 31
  standing_pos := nofun
  valid := fun _ h => h.elim nofun fun hne => absurd rfl hne
  unswept := fun _ _ _ => (Nat.zero_min _).symm
  swept := nofun
  again := nofun

/-- A hit keeps the tally. -/
theorem Tallied.hit (h : Tallied window s) (bucket : Digest) (now : ℤ) :
    Tallied window (step window s (.hit bucket now)) := by
  rcases step_hit window s bucket now with hstep | ⟨hrange, hpositive, row, hword, hnext, -, hstep⟩
  · rwa [hstep]
  rw [hstep]
  set s' : State := { s with
    table := Function.update s.table (keyOf window bucket now) (some row)
    counted := s.counted ++ [⟨bucket, now, row.count⟩] }
  have htally (k : Key) (n : ℕ) : tally window s' k n = tally window s k n +
      if keyOf window bucket now = k ∧ row.count ≤ n then 1 else 0 :=
    @tally_append window s s' ⟨bucket, now, row.count⟩ rfl k n
  have hgrown (k : Key) (n : ℕ) : tally window s k n ≤ tally window s' k n := by
    rw [htally]
    exact Nat.le_add_right _ _
  have hthere : s'.table (keyOf window bucket now) = some row := Function.update_self _ _ _
  have helse {k : Key} (hk : k ≠ keyOf window bucket now) : s'.table k = s.table k :=
    Function.update_of_ne hk _ _
  refine ⟨?_, ?_, ?_, ?_, ?_, ?_, ?_⟩
  · intro c hc
    rcases List.mem_append.mp hc with hc | hc
    · exact h.positive c hc
    · rw [List.mem_singleton.mp hc]
      exact hnext ▸ Nat.succ_pos _
  · intro k
    by_cases hk : k = keyOf window bucket now
    · rwa [hk, standing, hthere]
    · rw [standing, helse hk]
      exact h.word k
  · intro k row' hrow'
    by_cases hk : k = keyOf window bucket now
    · rw [hk, hthere] at hrow'
      rw [← Option.some.inj hrow', hnext]
      exact Nat.succ_pos _
    · exact h.standing_pos k row' (helse hk ▸ hrow')
  · intro k hk'
    by_cases hk : k = keyOf window bucket now
    · rw [hk]
      exact ⟨hrange, hpositive⟩
    · exact h.valid k (helse hk ▸ hk')
  · -- the next number is counted under the key of the hit
    intro k hswept n
    rw [htally, h.unswept k hswept n]
    by_cases hk : k = keyOf window bucket now
    · have hstanding : standing s'.table k = standing s.table k + 1 := by
        rw [hk, standing, hthere]
        exact hnext
      have hrow : row.count = standing s.table k + 1 := by rw [hk]; exact hnext
      rw [hstanding, hrow]
      simp only [hk, true_and]
      split <;> omega
    · rw [if_neg fun hkey => hk hkey.1.symm, standing, standing, helse hk, Nat.add_zero]
  · intro k hswept
    obtain ⟨n, hpos, hn, hle⟩ := h.swept k hswept
    exact ⟨n, hpos, hn, hle.trans (hgrown k n)⟩
  · intro k hswept hne
    by_cases hold : s.table k = none
    · -- the first number is counted once more
      obtain ⟨n, hpos, hn, hle⟩ := h.swept k hswept
      have hk : k = keyOf window bucket now := by
        by_contra hk
        exact hne ((helse hk).trans hold)
      have hone : row.count = 1 := by
        rw [hnext, standing, ← hk, hold]
        rfl
      refine ⟨n, hn, ?_⟩
      rw [htally, hone, if_pos ⟨hk.symm, hpos⟩]
      exact Nat.lt_succ_of_le hle
    · obtain ⟨n, hn, hlt⟩ := h.again k hswept hold
      exact ⟨n, hn, hlt.trans_le (hgrown k n)⟩

/-- A sweep keeps the tally. -/
theorem Tallied.sweep (h : Tallied window s) (now : ℤ) (batch : ℕ) (found : List Key) :
    Tallied window (step window s (.sweep now batch found)) := by
  rw [step]
  set s' : State := { s with
    table := sweepExpired s.table now batch found
    swept := s.swept ++ victims s.table now batch found }
  have hgone {k : Key} (hk : k ∈ victims s.table now batch found) : s'.table k = none := if_pos hk
  have hstays {k : Key} (hk : k ∉ victims s.table now batch found) : s'.table k = s.table k :=
    if_neg hk
  have hold {k : Key} (hne : s'.table k ≠ none) :
      k ∉ victims s.table now batch found ∧ s.table k ≠ none := by
    have hk : k ∉ victims s.table now batch found := fun hk => hne (hgone hk)
    exact ⟨hk, hstays hk ▸ hne⟩
  refine ⟨h.positive, ?_, ?_, ?_, ?_, ?_, ?_⟩
  · intro k
    by_cases hk : k ∈ victims s.table now batch found
    · rw [standing, hgone hk]
      exact Nat.two_pow_pos 31
    · rw [standing, hstays hk]
      exact h.word k
  · intro k row hrow
    obtain ⟨hk, -⟩ := hold (hrow ▸ Option.some_ne_none row)
    exact h.standing_pos k row (hstays hk ▸ hrow)
  · rintro k (hswept | hne)
    · rcases List.mem_append.mp hswept with hswept | hk
      · exact h.valid k (.inl hswept)
      · obtain ⟨row, hrow, -⟩ := mem_victims hk
        exact h.valid k (.inr (hrow ▸ Option.some_ne_none row))
    · exact h.valid k (.inr (hold hne).2)
  · intro k hswept n
    obtain ⟨hbefore, hk⟩ := not_or.mp (mt List.mem_append.mpr hswept)
    rw [standing, hstays hk]
    exact h.unswept k hbefore n
  · intro k hswept
    by_cases hbefore : k ∈ s.swept
    · exact h.swept k hbefore
    · -- it has counted every hit up to where it stands
      have hk := (List.mem_append.mp hswept).resolve_left hbefore
      obtain ⟨row, hrow, -⟩ := mem_victims hk
      have hstanding : standing s.table k = row.count := by rw [standing, hrow]; rfl
      refine ⟨row.count, h.standing_pos k row hrow, hstanding ▸ h.word k, ?_⟩
      have htally := h.unswept k hbefore row.count
      rw [hstanding, min_self] at htally
      exact htally.ge
  · intro k hswept hne
    obtain ⟨hk, hne⟩ := hold hne
    exact h.again k ((List.mem_append.mp hswept).resolve_right hk) hne

theorem Tallied.step (h : Tallied window s) (e : Event) : Tallied window (step window s e) := by
  rcases e with ⟨bucket, now⟩ | ⟨now, batch, found⟩
  · exact h.hit bucket now
  · exact h.sweep now batch found

/-! ### Late statements -/

/-- Hits that were counted stay counted. -/
theorem tally_le_step (e : Event) (k : Key) (n : ℕ) :
    tally window s k n ≤ tally window (step window s e) k n := by
  rcases e with ⟨bucket, now⟩ | ⟨now, batch, found⟩
  · rcases step_hit window s bucket now with hstep | ⟨-, -, row, -, -, -, hstep⟩
    · rw [hstep]
    · rw [hstep]
      exact (Nat.le_add_right _ _).trans_eq
        (@tally_append window s _ ⟨bucket, now, row.count⟩ rfl k n).symm
  · exact le_rfl

theorem tally_le_foldl (events : List Event) (k : Key) (n : ℕ) :
    tally window s k n ≤ tally window (events.foldl (step window) s) k n := by
  induction events generalizing s with
  | nil => exact le_rfl
  | cons e events ih => exact (tally_le_step e k n).trans ih

/-- A state in which no key has more hits counted up to a number than this number. -/
def Within (window : Digest → ℤ) (s : State) : Prop := ∀ k n, n < 2 ^ 31 → tally window s k n ≤ n

/-- **A statement that is not late keeps the counts within any limit.** -/
theorem Within.step (h : Within window s) (htallied : Tallied window s) {e : Event}
    (hprompt : Prompt window s e) : Within window (step window s e) := by
  rcases e with ⟨bucket, now⟩ | ⟨now, batch, found⟩
  · intro k n hn
    have hkeeps := htallied.hit bucket now
    by_cases hk : k = keyOf window bucket now
    · have hunswept : k ∉ (RateLimit.step window s (.hit bucket now)).swept := by
        rcases step_hit window s bucket now with hstep | ⟨-, -, row, -, -, -, hstep⟩
        all_goals
          rw [hstep, hk]
          exact hprompt
      exact (hkeeps.unswept k hunswept n).trans_le (min_le_right _ _)
    · rcases step_hit window s bucket now with hstep | ⟨-, -, row, -, -, -, hstep⟩
      · rw [hstep]
        exact h k n hn
      · rw [hstep, @tally_append window s _ ⟨bucket, now, row.count⟩ rfl k n,
          if_neg fun hkey => hk hkey.1.symm]
        exact h k n hn
  · exact h

/-- **A late hit exceeds some limit**: it is counted under one that was reached before its counter
was swept. -/
theorem not_within_of_late (h : Tallied window s) {bucket : Digest} {now : ℤ}
    (hlate : keyOf window bucket now ∈ s.swept) :
    ¬ Within window (step window s (.hit bucket now)) := by
  intro hwithin
  have hkeeps := h.hit bucket now
  have hexceeds : ∃ n, n < 2 ^ 31 ∧
      n < tally window (step window s (.hit bucket now)) (keyOf window bucket now) n := by
    by_cases hold : s.table (keyOf window bucket now) = none
    · rw [step_of_none (h.valid _ (.inl hlate)) hold] at hkeeps ⊢
      refine hkeeps.again _ hlate ?_
      dsimp only
      rw [Function.update_self]
      exact Option.some_ne_none _
    · obtain ⟨n, hn, hlt⟩ := h.again _ hlate hold
      exact ⟨n, hn, hlt.trans_le (tally_le_step _ _ _)⟩
  obtain ⟨n, hn, hlt⟩ := hexceeds
  exact absurd (hwithin _ n hn) (not_le.mpr hlt)

/-- **The counts of a run are within any limit** exactly if no statement is late. -/
theorem within_foldl_iff {events : List Event} (h : Tallied window s) (hwithin : Within window s) :
    Within window (events.foldl (step window) s) ↔ AllPrompt window s events := by
  induction events generalizing s with
  | nil => exact ⟨fun _ => trivial, fun _ => hwithin⟩
  | cons e events ih =>
    rw [List.foldl_cons, AllPrompt]
    constructor
    · intro hend
      have hnext : Within window (step window s e) := fun k n hn =>
        (tally_le_foldl events k n).trans (hend k n hn)
      refine ⟨?_, (ih (h.step e) hnext).mp hend⟩
      rcases e with ⟨bucket, now⟩ | ⟨now, batch, found⟩
      · exact fun hlate => not_within_of_late h hlate hnext
      · trivial
    · rintro ⟨hprompt, hrest⟩
      exact (ih (h.step e) (hwithin.step h hprompt)).mpr hrest

/-! ### Limits -/

/-- The counters of a run are tallied. -/
theorem tallied_foldl (events : List Event) (h : Tallied window s) :
    Tallied window (events.foldl (step window) s) := by
  induction events generalizing s with
  | nil => exact h
  | cons e events ih => exact ih (h.step e)

/-- A hit is allowed if it is counted up to the limit. -/
theorem allowed_eq_tally (h : Tallied window s) (k : Key) :
    allowed window limit s k = tally window s k (limit k.1).toNat := by
  rw [allowed, tally]
  refine List.countP_congr fun c hc => ?_
  have hpos := h.positive c hc
  have hallowed : (c.decision window limit).isAllowed = true ↔ (c.count : ℤ) ≤ limit c.bucket := by
    rw [Decision.isAllowed, decide_eq_true_iff]
    rfl
  rw [Bool.and_eq_true, Bool.and_eq_true, hallowed, decide_eq_true_iff, decide_eq_true_iff]
  refine and_congr_right fun hk => ?_
  rw [← hk]
  show (c.count : ℤ) ≤ limit c.bucket ↔ c.count ≤ (limit c.bucket).toNat
  omega

/-- A window starts no later than the instants in it. -/
theorem windowStart_le (w now : ℤ) : windowStart w now ≤ now := by
  have hmod : 0 ≤ now / second % windowSecs w :=
    Int.emod_nonneg _ (by rw [windowSecs]; omega)
  rw [windowStart, second] at *
  omega

/-- **Who is refused is told to come back** in a second at least, and within the window. -/
theorem retryAfter_bounds (c : Counted) (hwindow : second ≤ window c.bucket) :
    second ≤ (c.decision window limit).retryAfter c.now ∧
      (c.decision window limit).retryAfter c.now ≤ window c.bucket := by
  have hstart := windowStart_le (window c.bucket) c.now
  have hsecond : 0 < second := by decide
  rw [Decision.retryAfter, Counted.decision]
  dsimp only
  split <;> omega

/-- **When rate limits hold**: in a run of hits and sweeps of any processes, each with the instant that
was read before its statement ran, every bucket is within its limit in every window, whatever the
limits are, exactly if no hit is counted for a counter that was swept. Who is refused is always told
to come back in a second at least and within the window. -/
theorem limited_iff (window : Digest → ℤ) (events : List Event) :
    (∀ limit : Digest → ℤ, (∀ b, limit b < 2 ^ 31) → Limited window limit (run window events)) ↔
      AllPrompt window {} events := by
  have hwithin_empty : Within window {} := fun k n _ => Nat.zero_le n
  have htallied : Tallied window (run window events) := tallied_foldl events tallied_empty
  rw [← within_foldl_iff tallied_empty hwithin_empty]
  constructor
  · intro hlimited k n hn
    have hbound := (hlimited (fun _ => n) fun _ => by omega).at_most k
    rwa [allowed_eq_tally htallied] at hbound
  · intro hwithin limit hword
    refine ⟨fun k => ?_, fun c _ _ hwindow => retryAfter_bounds c hwindow⟩
    rw [allowed_eq_tally htallied]
    have hk := hword k.1
    exact hwithin k _ (by omega)

/-! ### Early enough -/

/-- The second statement is not a hit in a window that the first has swept. -/
def Early (window : Digest → ℤ) : Event → Event → Prop
  | .sweep now _ _, .hit bucket t => now < (keyOf window bucket t).2 + window bucket
  | _, _ => True

/-- Counters are over when their windows are, and what was swept was over for some sweep. -/
structure Timed (window : Digest → ℤ) (s : State) (past : List Event) : Prop where
  expires : ∀ k row, s.table k = some row → row.expiresAt = k.2 + window k.1
  swept : ∀ k ∈ s.swept, ∃ now batch found, Event.sweep now batch found ∈ past ∧
    k.2 + window k.1 ≤ now

theorem Timed.step {past : List Event} (h : Timed window s past) (e : Event) :
    Timed window (step window s e) (past ++ [e]) := by
  have hpast : ∀ k ∈ s.swept, ∃ now batch found, Event.sweep now batch found ∈ past ++ [e] ∧
      k.2 + window k.1 ≤ now := by
    intro k hk
    obtain ⟨now, batch, found, hmem, hle⟩ := h.swept k hk
    exact ⟨now, batch, found, List.mem_append_left _ hmem, hle⟩
  rcases e with ⟨bucket, now⟩ | ⟨now, batch, found⟩
  · rcases step_hit window s bucket now with hstep | ⟨-, -, row, -, -, hexpires, hstep⟩
    · rw [hstep]
      exact ⟨h.expires, hpast⟩
    · rw [hstep]
      refine ⟨fun k row' hrow' => ?_, hpast⟩
      dsimp only at hrow'
      by_cases hk : k = keyOf window bucket now
      · rw [hk, Function.update_self] at hrow'
        rw [← Option.some.inj hrow', hexpires, hk]
        rcases hold : s.table (keyOf window bucket now) with _ | old
        · rfl
        · exact h.expires _ old hold
      · rw [Function.update_of_ne hk] at hrow'
        exact h.expires k row' hrow'
  · refine ⟨fun k row hrow => ?_, fun k hk => ?_⟩
    · have hkept : k ∉ victims s.table now batch found := fun hk =>
        Option.some_ne_none row (hrow.symm.trans (if_pos hk))
      exact h.expires k row ((if_neg hkept).symm.trans hrow)
    · rcases List.mem_append.mp hk with hk | hk
      · exact hpast k hk
      · obtain ⟨row, hrow, hle⟩ := mem_victims hk
        exact ⟨now, batch, found, List.mem_append_right _ (List.mem_singleton_self _),
          h.expires k row hrow ▸ hle⟩

/-- **No statement is late** if every hit runs before the sweeps whose instants are past its window. -/
theorem allPrompt_of_early {past events : List Event} (h : Timed window s past)
    (hpast : ∀ e ∈ past, ∀ f ∈ events, Early window e f) (hearly : events.Pairwise (Early window)) :
    AllPrompt window s events := by
  induction events generalizing s past with
  | nil => trivial
  | cons e events ih =>
    obtain ⟨he, hearly⟩ := List.pairwise_cons.mp hearly
    refine ⟨?_, ih (h.step e) (fun e' he' f hf => ?_) hearly⟩
    · rcases e with ⟨bucket, now⟩ | ⟨now, batch, found⟩
      · intro hlate
        obtain ⟨now', batch, found, hmem, hle⟩ := h.swept _ hlate
        exact absurd (hpast _ hmem _ List.mem_cons_self) (not_lt.mpr hle)
      · trivial
    · rcases List.mem_append.mp he' with he' | he'
      · exact hpast e' he' f (List.mem_cons_of_mem _ hf)
      · rw [List.mem_singleton.mp he']
        exact he f hf

/-! ### A hit that waits -/

/-- **A hit that waits past its window may be allowed beyond the limit**: of one request a minute, two
are allowed, of which the second read the clock before the minute was over and ran after a sweep that
read it when it was. -/
theorem limited_waiting :
    ¬ Limited (fun _ => 60 * second) (fun _ => 1) (run (fun _ => 60 * second)
      [.hit "ip".toList 59900000, .sweep 60000000 5000 [("ip".toList, 0)],
        .hit "ip".toList 59950000]) := by
  intro hlimited
  exact absurd (hlimited.at_most ("ip".toList, 0)) (by decide +kernel)

end Marketplace.RateLimit
