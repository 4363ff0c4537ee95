import Marketplace.ReadCommitted.Statements

/-!
# At most one row of each group

Rows belong to groups, or to none; a row leaves its group when it is closed. This file is
about tables in which every group has at most one published row, and about what it takes
to keep it so when rows are inserted and closed by transactions that overlap
(`ReadCommitted.Table.AtMostOne`). A transaction that closes the rows of a group that it
sees, and then inserts one, is safe exactly as far as it has seen all of them: that is
`ReadCommitted.Table.Vacant`, which a unique index enforces
(`ReadCommitted.Table.insertUnique`), and which nothing enforces where there is none.
-/

namespace ReadCommitted

namespace Table

variable {ι K R β γ : Type} [DecidableEq ι] [DecidableEq K] {grp : R → Option γ} {m : Mode}
  {i j : ι} {k l : K} {g : γ} {f : Option R → β × Option R} {t t' : Table ι K R} {b : β}

section

variable (grp) (t)

/-- Row `k` is a published row of the group. -/
def Published (k : K) (g : γ) : Prop :=
  ∃ r, (t.slot k).committed = some r ∧ grp r = some g

/-- Process `j` is about to publish row `k` in the group. -/
def Pending (j : ι) (k : K) (g : γ) : Prop :=
  ∃ r, (t.slot k).lock = some (j, some r) ∧ grp r = some g

/-- Process `j` holds row `k`, and is about to publish it outside the group. -/
def Leaving (j : ι) (k : K) (g : γ) : Prop :=
  ∃ v, (t.slot k).lock = some (j, v) ∧ ∀ r, v = some r → grp r ≠ some g

/-- **Every group has at most one published row**, and will have at most one whoever commits
first. -/
structure AtMostOne : Prop where
  /-- At most one row is published. -/
  published : ∀ {k l g}, t.Published grp k g → t.Published grp l g → k = l
  /-- Whoever is about to publish one has closed the published one. -/
  replaced : ∀ {j k l g}, t.Pending grp j k g → t.Published grp l g → l = k ∨ t.Leaving grp j l g
  /-- At most one row is about to be published. -/
  pending : ∀ {i j k l g}, t.Pending grp i k g → t.Pending grp j l g → k = l

/-- **The group has room for row `k`**: process `i` has closed every other row of it, and
nobody is about to publish another. -/
structure Vacant (m : Mode) (i : ι) (k : K) (g : γ) : Prop where
  /-- Published rows of the group are being closed by the same transaction. -/
  published : ∀ l, t.Published grp l g → l = k ∨ m = .tx ∧ t.Leaving grp i l g
  /-- No other row of the group is about to be published. -/
  pending : ∀ j l, t.Pending grp j l g → l = k

end

omit [DecidableEq K] in
/-- A row that is in the group as its writer sees it is about to be published there by the
writer, or is published there and held by nobody. -/
theorem member_of_row {r : R} (hfree : (t.slot k).freeFor i = true) (hr : t.row i k = some r)
    (hg : grp r = some g) :
    t.Pending grp i k g ∨ t.Published grp k g ∧ (t.slot k).lock = none := by
  rcases Slot.lock_eq_of_freeFor hfree with hnone | ⟨v, hv⟩
  · rw [row, Slot.visible_of_unlocked hnone] at hr
    exact Or.inr ⟨⟨r, hr, hg⟩, hnone⟩
  · rw [row, Slot.visible_of_held hv] at hr
    exact Or.inl ⟨r, by rw [hv, hr], hg⟩

omit [DecidableEq ι] [DecidableEq K] in
theorem not_leaving_of_unlocked (h : (t.slot k).lock = none) : ¬ t.Leaving grp j k g := by
  rintro ⟨v, hv, -⟩
  rw [h] at hv
  cases hv

omit [DecidableEq ι] [DecidableEq K] in
theorem not_pending_of_unlocked (h : (t.slot k).lock = none) : ¬ t.Pending grp j k g := by
  rintro ⟨v, hv, -⟩
  rw [h] at hv
  cases hv

omit [DecidableEq ι] [DecidableEq K] in
theorem Pending.not_leaving (h : t.Pending grp i k g) : ¬ t.Leaving grp j k g := by
  rintro ⟨v, hv, hne⟩
  obtain ⟨r, hr, hg⟩ := h
  rw [hr] at hv
  cases hv
  exact hne r rfl hg

omit [DecidableEq K] in
/-- **Every group has at most one row that a process sees.** -/
theorem AtMostOne.row (ht : t.AtMostOne grp) {r r' : R} (hk : t.row i k = some r)
    (hg : grp r = some g) (hl : t.row i l = some r') (hg' : grp r' = some g) : k = l := by
  have hmember : ∀ {k r}, t.row i k = some r → grp r = some g →
      t.Pending grp i k g ∨ t.Published grp k g ∧ ¬ t.Leaving grp i k g := by
    intro k r hr hg
    rcases Slot.visible_cases i (t.slot k) with hi | hc
    · exact Or.inl ⟨r, by rw [hi]; exact congrArg (fun v => some (i, v)) hr, hg⟩
    · refine Or.inr ⟨⟨r, hc.symm.trans hr, hg⟩, fun ⟨v, hv, hne⟩ => hne r ?_ hg⟩
      rw [← hr, Table.row, Slot.visible_of_held hv]
  rcases hmember hk hg with hk | ⟨hk, hk'⟩ <;> rcases hmember hl hg' with hl | ⟨hl, hl'⟩
  · exact ht.pending hk hl
  · exact ((ht.replaced hk hl).resolve_right hl').symm
  · exact (ht.replaced hl hk).resolve_right hk'
  · exact ht.published hk hl

section Put

variable {r : R}

omit [DecidableEq ι] in
theorem published_put_tx {x : Slot ι R} (hx : t.slot k = x) :
    (t.put k (x.put .tx i r)).Published grp l g ↔ t.Published grp l g := by
  subst hx
  rcases eq_or_ne l k with rfl | hne
  · rw [Published, slot_put_self]
    rfl
  · rw [Published, slot_put_of_ne hne]
    rfl

omit [DecidableEq ι] in
theorem pending_put (h : (t.put k ((t.slot k).put m i r)).Pending grp j l g) :
    l ≠ k ∧ t.Pending grp j l g ∨ l = k ∧ j = i ∧ m = .tx ∧ grp r = some g := by
  rcases eq_or_ne l k with rfl | hne
  · obtain ⟨r', hr', hg⟩ := h
    rw [slot_put_self] at hr'
    obtain ⟨rfl, he, rfl⟩ := Slot.lock_put hr'
    cases he
    exact Or.inr ⟨rfl, rfl, rfl, hg⟩
  · rw [Pending, slot_put_of_ne hne] at h
    exact Or.inl ⟨hne, h⟩

omit [DecidableEq ι] in
theorem leaving_put_of_ne {x : Slot ι R} (hne : l ≠ k) :
    (t.put k x).Leaving grp j l g ↔ t.Leaving grp j l g := by
  rw [Leaving, slot_put_of_ne hne]
  rfl

end Put

/-- **A statement keeps at most one row in each group**, when the row it writes was in that
group already, or the group has room for it. -/
theorem AtMostOne.modify (ht : t.AtMostOne grp) (h : t.modify m i k f = some (b, t'))
    (hf : ∀ r g, (f (t.row i k)).2 = some r → grp r = some g →
      (∃ r₀, t.row i k = some r₀ ∧ grp r₀ = some g) ∨ t.Vacant grp m i k g) :
    t'.AtMostOne grp := by
  obtain ⟨hfree, -, ⟨-, rfl⟩ | ⟨r, hr, rfl⟩⟩ := modify_cases h
  · exact ht
  have hmem : ∀ {g}, grp r = some g → (t.Pending grp i k g ∨
      t.Published grp k g ∧ (t.slot k).lock = none) ∨ t.Vacant grp m i k g := by
    intro g hg
    rcases hf r g hr hg with ⟨r₀, hr₀, hg₀⟩ | hvac
    · exact Or.inl (member_of_row hfree hr₀ hg₀)
    · exact Or.inr hvac
  cases m with
  | tx =>
    refine ⟨fun {k₁ k₂ g} h₁ h₂ => ?_, fun {j k₁ l g} h₁ h₂ => ?_, fun {j₁ j₂ k₁ k₂ g} h₁ h₂ => ?_⟩
    · exact ht.published ((published_put_tx rfl).mp h₁) ((published_put_tx rfl).mp h₂)
    · have hl := (published_put_tx rfl).mp h₂
      rcases pending_put h₁ with ⟨hne, hp⟩ | ⟨rfl, rfl, -, hg⟩
      · rcases ht.replaced hp hl with rfl | hleave
        · exact Or.inl rfl
        · rcases eq_or_ne l k with rfl | hlk
          · -- the row is the one written, so it must not have been put back in the group
            obtain ⟨v, hv, -⟩ := id hleave
            obtain rfl := Slot.freeFor_iff.mp hfree j v hv
            refine Or.inr ⟨some r, ?_, fun r' hr' hg => ?_⟩
            · rw [slot_put_self]
              rfl
            · cases hr'
              rcases hmem hg with (hown | ⟨-, hnone⟩) | hvac
              · exact hown.not_leaving hleave
              · exact not_leaving_of_unlocked hnone hleave
              · exact hne (hvac.pending _ _ hp)
          · exact Or.inr ((leaving_put_of_ne hlk).mpr hleave)
      · have hroom : l = k₁ ∨ t.Leaving grp j l g := by
          rcases hmem hg with (hown | ⟨hpub, -⟩) | hvac
          · exact ht.replaced hown hl
          · exact Or.inl (ht.published hl hpub)
          · exact (hvac.published l hl).imp_right And.right
        rcases eq_or_ne l k₁ with heq | hlk
        · exact Or.inl heq
        · exact Or.inr ((leaving_put_of_ne hlk).mpr (hroom.resolve_left hlk))
    · have hnew : ∀ {j l g}, grp r = some g → t.Pending grp j l g → l = k := by
        intro j l g hg hp
        rcases hmem hg with (hown | ⟨hpub, hnone⟩) | hvac
        · exact ht.pending hp hown
        · rcases ht.replaced hp hpub with hkl | hleave
          · exact hkl.symm
          · exact absurd hleave (not_leaving_of_unlocked hnone)
        · exact hvac.pending j l hp
      rcases pending_put h₁ with ⟨-, hp₁⟩ | ⟨heq₁, -, -, hg₁⟩ <;>
        rcases pending_put h₂ with ⟨-, hp₂⟩ | ⟨heq₂, -, -, hg₂⟩
      · exact ht.pending hp₁ hp₂
      · exact (hnew hg₂ hp₁).trans heq₂.symm
      · exact heq₁.trans (hnew hg₁ hp₂).symm
      · exact heq₁.trans heq₂.symm
  | auto =>
    have hnone := unlocked_of_auto h
    have hpub : ∀ {l g}, (t.put k ((t.slot k).put .auto i r)).Published grp l g →
        t.Published grp l g ∨ l = k ∧ t.Vacant grp .auto i k g := by
      intro l g hl
      rcases eq_or_ne l k with rfl | hne
      · obtain ⟨r', hr', hg⟩ := hl
        rw [slot_put_self] at hr'
        cases hr'
        rcases hmem hg with (hown | hpub) | hvac
        · exact absurd hown (not_pending_of_unlocked hnone)
        · exact Or.inl hpub.1
        · exact Or.inr ⟨rfl, hvac⟩
      · rw [Published, slot_put_of_ne hne] at hl
        exact Or.inl hl
    have hpend : ∀ {j l g}, (t.put k ((t.slot k).put .auto i r)).Pending grp j l g →
        t.Pending grp j l g := by
      intro j l g hl
      rcases pending_put hl with ⟨-, hp⟩ | ⟨-, -, hm, -⟩
      · exact hp
      · cases hm
    have hroom : ∀ {l g}, t.Vacant grp .auto i k g → t.Published grp l g → l = k := by
      intro l g hvac hl
      rcases hvac.published l hl with heq | ⟨hm, -⟩
      · exact heq
      · cases hm
    refine ⟨fun {k₁ k₂ g} h₁ h₂ => ?_, fun {j k₁ l g} h₁ h₂ => ?_,
      fun h₁ h₂ => ht.pending (hpend h₁) (hpend h₂)⟩
    · rcases hpub h₁ with hl₁ | ⟨heq₁, hvac₁⟩ <;> rcases hpub h₂ with hl₂ | ⟨heq₂, hvac₂⟩
      · exact ht.published hl₁ hl₂
      · exact (hroom hvac₂ hl₁).trans heq₂.symm
      · exact heq₁.trans (hroom hvac₁ hl₂).symm
      · exact heq₁.trans heq₂.symm
    · rcases hpub h₂ with hl | ⟨heq, hvac⟩
      · refine (ht.replaced (hpend h₁) hl).imp_right fun hleave => ?_
        have hlk : l ≠ k := by
          rintro rfl
          exact not_leaving_of_unlocked hnone hleave
        exact (leaving_put_of_ne hlk).mpr hleave
      · exact Or.inl (heq.trans (hvac.pending _ _ (hpend h₁)).symm)

/-! ### Inserts under a unique index -/

omit [DecidableEq K] in
/-- Somebody is in the way of an insert: the row clashes with it as it is published, or as it
is about to be. -/
def contests (m : Mode) (i : ι) (clash : R → Bool) (x : Slot ι R) : Bool :=
  match x.lock with
  | some (j, v) =>
    (decide (m = .auto) || decide (j ≠ i)) && (x.committed.any clash || v.any clash)
  | none => false

/-- **An `INSERT` under a unique index**, of a row that clashes with some others: it waits for
those who hold one, and is refused when there is one that it sees. -/
def insertUnique (m : Mode) (i : ι) (k : K) (clash : R → Bool) (r : R) (t : Table ι K R) :
    Option (Bool × Table ι K R) :=
  if t.keys.any fun l => contests m i clash (t.slot l) then none
  else if t.keys.any fun l => (t.row i l).any clash then some (false, t)
  else t.modify m i k (inserting r)

section InsertUnique

variable {clash : R → Bool} {r : R} {b : Bool}

omit [DecidableEq K] in
theorem contests_of_unlisted (h : k ∉ t.keys) : contests m i clash (t.slot k) = false := by
  rw [t.empty_of_not_mem k h]
  rfl

/-- **What an insert under a unique index finds**: nothing that clashes, unless it is refused. -/
theorem insertUnique_cases (h : t.insertUnique m i k clash r = some (b, t')) :
    (∀ l, contests m i clash (t.slot l) = false) ∧
      (b = false ∧ t' = t ∨ t.modify m i k (inserting r) = some (b, t') ∧
        ∀ l, (t.row i l).any clash = false) := by
  rw [insertUnique] at h
  split at h
  · cases h
  · rename_i hcontest
    have hnone : ∀ l, contests m i clash (t.slot l) = false := by
      intro l
      by_cases hl : l ∈ t.keys
      · by_contra hne
        exact hcontest (List.any_eq_true.mpr ⟨l, hl, by simpa using hne⟩)
      · exact contests_of_unlisted hl
    refine ⟨hnone, ?_⟩
    split at h
    · cases h
      exact Or.inl ⟨rfl, rfl⟩
    · rename_i hsees
      refine Or.inr ⟨h, fun l => ?_⟩
      by_cases hl : l ∈ t.keys
      · by_contra hne
        exact hsees (List.any_eq_true.mpr ⟨l, hl, by simpa using hne⟩)
      · rw [row, t.empty_of_not_mem l hl]
        rfl

theorem effect_of_insertUnique {A : K → Option R → R → Prop}
    (h : t.insertUnique m i k clash r = some (b, t')) (hA : t.row i k = none → A k none r) :
    Effect A i t t' := by
  rcases (insertUnique_cases h).2 with ⟨-, rfl⟩ | ⟨h, -⟩
  · exact .keep _
  · refine effect_of_modify h fun r' hr' => ?_
    obtain ⟨hnone, rfl⟩ := inserting_cases hr'
    rw [hnone]
    exact hA hnone

omit [DecidableEq K] in
/-- **The group has room for a row that its unique index lets in**: nobody is in the way of it
at another row, and none of those clashes. -/
theorem vacant_of_uncontested (hcontest : ∀ l, l ≠ k → contests m i clash (t.slot l) = false)
    (hsees : ∀ l, l ≠ k → (t.row i l).any clash = false)
    (hclash : ∀ r, grp r = some g → clash r = true) : t.Vacant grp m i k g := by
  have hseen : ∀ l r, l ≠ k → t.row i l = some r → grp r ≠ some g := by
    intro l r hl hr hg
    have hno := hsees l hl
    rw [hr, Option.any_some, hclash r hg] at hno
    cases hno
  -- a version that clashes is not held by anybody in the way
  have hheld : ∀ l j v, l ≠ k → (t.slot l).lock = some (j, v) →
      ((t.slot l).committed.any clash || v.any clash) = true → m = .tx ∧ j = i := by
    intro l j v hl hlock hany
    have hno := hcontest l hl
    rw [contests, hlock] at hno
    dsimp only at hno
    rw [hany, Bool.and_true, Bool.or_eq_false_iff, decide_eq_false_iff_not,
      decide_eq_false_iff_not, ne_eq, not_not] at hno
    cases m with
    | tx => exact ⟨rfl, hno.2⟩
    | auto => exact absurd rfl hno.1
  refine ⟨fun l ⟨r, hr, hg⟩ => ?_, fun j l ⟨r, hr, hg⟩ => ?_⟩
  · by_cases hl : l = k
    · exact Or.inl hl
    rcases hlock : (t.slot l).lock with _ | ⟨j, v⟩
    · refine absurd hg (hseen l r hl ?_)
      rw [row, Slot.visible_of_unlocked hlock]
      exact hr
    · obtain ⟨hm, rfl⟩ := hheld l j v hl hlock (by rw [hr, Option.any_some, hclash r hg]; rfl)
      refine Or.inr ⟨hm, v, hlock, fun r' hr' => hseen l r' hl ?_⟩
      rw [row, Slot.visible_of_held hlock]
      exact hr'
  · by_contra hl
    obtain ⟨-, rfl⟩ := hheld l j (some r) hl hr
      (by rw [Option.any_some, hclash r hg, Bool.or_true])
    refine absurd hg (hseen l r hl ?_)
    rw [row, Slot.visible_of_held hr]

/-- **An insert under the unique index of the groups keeps at most one row in each.** -/
theorem AtMostOne.insertUnique (ht : t.AtMostOne grp)
    (h : t.insertUnique m i k clash r = some (b, t'))
    (hclash : ∀ g r', grp r = some g → grp r' = some g → clash r' = true) : t'.AtMostOne grp := by
  obtain ⟨hcontest, ⟨-, rfl⟩ | ⟨h, hsees⟩⟩ := insertUnique_cases h
  · exact ht
  · refine ht.modify h fun r' g hr' hg => Or.inr ?_
    obtain ⟨-, rfl⟩ := inserting_cases hr'
    exact vacant_of_uncontested (fun l _ => hcontest l) (fun l _ => hsees l)
      fun r'' hg' => hclash g r'' hg hg'

/-- Under a unique index too, an insert of an open transaction publishes nothing. -/
theorem committed_insertUnique (h : t.insertUnique .tx i k clash r = some (b, t')) (l : K) :
    (t'.slot l).committed = (t.slot l).committed := by
  rcases (insertUnique_cases h).2 with ⟨-, rfl⟩ | ⟨h, -⟩
  · rfl
  · exact committed_modify h l

end InsertUnique

/-! ### Updates under a unique index -/

/-- **An `UPDATE` under a unique index**: it is refused, with the answer `none`, when the row it
would write clashes with another one, and waits for those who hold such a row. -/
def modifyUnique (m : Mode) (i : ι) (k : K) (clash : R → R → Bool)
    (f : Option R → β × Option R) (t : Table ι K R) : Option (Option β × Table ι K R) :=
  let clashes := fun r => (f (t.row i k)).2.any fun r' => clash r' r
  if t.keys.any fun l => l ≠ k && contests m i clashes (t.slot l) then none
  else if t.keys.any fun l => l ≠ k && (t.row i l).any clashes then some (none, t)
  else (t.modify m i k f).map fun p => (some p.1, p.2)

section ModifyUnique

variable {clash : R → R → Bool} {b : Option β}

/-- **What an update under a unique index can have done**: nothing, when it is refused, or what
the update alone would do, when no other row clashes. -/
theorem modifyUnique_cases (h : t.modifyUnique m i k clash f = some (b, t')) :
    b = none ∧ t' = t ∨ (∃ b', b = some b' ∧ t.modify m i k f = some (b', t')) ∧
      ∀ l r, l ≠ k → (f (t.row i k)).2 = some r →
        contests m i (clash r) (t.slot l) = false ∧ (t.row i l).any (clash r) = false := by
  rw [modifyUnique] at h
  split at h
  · cases h
  · rename_i hcontest
    split at h
    · cases h
      exact Or.inl ⟨rfl, rfl⟩
    · rename_i hsees
      obtain ⟨⟨b', t₁⟩, hmod, he⟩ := Option.map_eq_some_iff.mp h
      cases he
      refine Or.inr ⟨⟨b', rfl, hmod⟩, fun l r hl hr => ?_⟩
      have hr' : (fun r₁ => (f (t.row i k)).2.any fun r' => clash r' r₁) = clash r := by
        funext r₁
        rw [hr, Option.any_some]
      rw [hr'] at hcontest hsees
      by_cases hmem : l ∈ t.keys
      · constructor
        · by_contra hne
          exact hcontest (List.any_eq_true.mpr ⟨l, hmem, by simpa [hl] using hne⟩)
        · by_contra hne
          exact hsees (List.any_eq_true.mpr ⟨l, hmem, by simpa [hl] using hne⟩)
      · refine ⟨contests_of_unlisted hmem, ?_⟩
        rw [row, t.empty_of_not_mem l hmem]
        rfl

/-- **What an `UPDATE … WHERE p` that answers has found**: a row that it has written over, or none
that satisfies `p`. -/
theorem modifyUnique_checking {p : R → Bool} {g : R → Option R} {hit : Bool}
    (h : t.modifyUnique m i k clash (checking p g) = some (some (some hit), t')) :
    (hit = true ∧ ∃ r r', t.row i k = some r ∧ p r = true ∧ g r = some r' ∧
        t' = t.put k ((t.slot k).put m i r')) ∨
      hit = false ∧ t' = t ∧ ∀ r, t.row i k = some r → p r = false := by
  rcases modifyUnique_cases h with ⟨hnone, -⟩ | ⟨⟨b', hb, hmod⟩, -⟩
  · cases hnone
  · cases hb
    obtain ⟨-, hanswer, hput⟩ := modify_cases hmod
    rcases hrow : t.row i k with _ | r
    · rw [hrow] at hanswer hput
      cases hanswer
      rcases hput with ⟨-, rfl⟩ | ⟨r', hr', -⟩
      · exact Or.inr ⟨rfl, rfl, nofun⟩
      · cases hr'
    · rw [hrow, checking] at hanswer hput
      split at hanswer
      · rename_i hp
        rcases hg : g r with _ | r'
        · rw [hg] at hanswer
          cases hanswer
        · rw [if_pos hp, hg] at hput
          rw [hg] at hanswer
          cases hanswer
          rcases hput with ⟨hnone, -⟩ | ⟨r₁, hr₁, rfl⟩
          · cases hnone
          · cases hr₁
            exact Or.inl ⟨rfl, r, r', rfl, hp, hg, rfl⟩
      · rename_i hp
        rw [if_neg hp] at hput
        cases hanswer
        rcases hput with ⟨-, rfl⟩ | ⟨r', hr', -⟩
        · refine Or.inr ⟨rfl, rfl, fun r₁ hr₁ => ?_⟩
          cases hr₁
          exact eq_false_of_ne_true hp
        · cases hr'

theorem effect_of_modifyUnique {A : K → Option R → R → Prop}
    (h : t.modifyUnique m i k clash f = some (b, t'))
    (hf : ∀ r, (f (t.row i k)).2 = some r → A k (t.row i k) r) : Effect A i t t' := by
  rcases modifyUnique_cases h with ⟨-, rfl⟩ | ⟨⟨b', -, hmod⟩, -⟩
  · exact .keep _
  · exact effect_of_modify hmod hf

/-- Under a unique index too, a statement of an open transaction publishes nothing. -/
theorem committed_modifyUnique (h : t.modifyUnique .tx i k clash f = some (b, t')) (l : K) :
    (t'.slot l).committed = (t.slot l).committed := by
  rcases modifyUnique_cases h with ⟨-, rfl⟩ | ⟨⟨b', -, hmod⟩, -⟩
  · rfl
  · exact committed_modify hmod l

/-- **An update under the unique index of the groups keeps at most one row in each.** -/
theorem AtMostOne.modifyUnique (ht : t.AtMostOne grp)
    (h : t.modifyUnique m i k clash f = some (b, t'))
    (hclash : ∀ g r r', grp r = some g → grp r' = some g → clash r r' = true) :
    t'.AtMostOne grp := by
  rcases modifyUnique_cases h with ⟨-, rfl⟩ | ⟨⟨b', -, hmod⟩, hfree⟩
  · exact ht
  · refine ht.modify hmod fun r g hr hg => Or.inr ?_
    exact vacant_of_uncontested (fun l hl => (hfree l r hl hr).1)
      (fun l hl => (hfree l r hl hr).2) fun r' hg' => hclash g r r' hg hg'

end ModifyUnique

/-! ### Rows under new identifiers -/

section Fresh

variable {t t' : Table ι ℕ R} {k : ℕ} {clash : R → Bool} {r : R} {o : Option ℕ}

omit [DecidableEq ι] in
/-- An identifier above all that have been used. -/
def fresh (t : Table ι ℕ R) : ℕ := t.keys.foldr (fun k n => max (k + 1) n) 0

omit [DecidableEq ι] in
theorem lt_fresh_of_mem (h : k ∈ t.keys) : k < t.fresh := by
  have hle : ∀ ks : List ℕ, k ∈ ks → k < ks.foldr (fun k n => max (k + 1) n) 0 := by
    intro ks hk
    induction ks with
    | nil => cases hk
    | cons l ks ih =>
      rw [List.foldr_cons]
      rcases List.mem_cons.mp hk with rfl | hk
      · omega
      · have := ih hk
        omega
  exact hle t.keys h

omit [DecidableEq ι] in
/-- A row that is there, or on its way, has an identifier below the new one. -/
theorem lt_fresh (h : t.slot k ≠ {}) : k < t.fresh := by
  by_contra hk
  exact h (t.empty_of_not_mem k fun hmem => hk (lt_fresh_of_mem hmem))

omit [DecidableEq ι] in
theorem slot_fresh (t : Table ι ℕ R) : t.slot t.fresh = {} := by
  by_contra h
  exact absurd (lt_fresh h) (Nat.lt_irrefl _)

/-- **An `INSERT` under a new identifier**, and a unique index: the answer is the identifier,
when it is not refused. -/
def insertFresh (m : Mode) (i : ι) (clash : R → Bool) (r : R) (t : Table ι ℕ R) :
    Option (Option ℕ × Table ι ℕ R) :=
  (t.insertUnique m i t.fresh clash r).map fun p => (if p.1 then some t.fresh else none, p.2)

/-- **What an insert under a new identifier finds**: nothing that clashes, unless it is
refused. -/
theorem insertFresh_cases (h : t.insertFresh m i clash r = some (o, t')) :
    (∀ l, contests m i clash (t.slot l) = false) ∧
      (o = none ∧ t' = t ∨
        o = some t.fresh ∧ t' = t.put t.fresh (Slot.put m i r {}) ∧
          ∀ l, (t.row i l).any clash = false) := by
  obtain ⟨⟨b, t₁⟩, hins, he⟩ := Option.map_eq_some_iff.mp h
  cases he
  obtain ⟨hcontest, ⟨rfl, rfl⟩ | ⟨hmod, hsees⟩⟩ := insertUnique_cases hins
  · exact ⟨hcontest, Or.inl ⟨rfl, rfl⟩⟩
  · refine ⟨hcontest, Or.inr ?_⟩
    have hrow : t.row i t.fresh = none := by
      rw [row, slot_fresh]
      rfl
    obtain ⟨-, hb, hput⟩ := modify_cases hmod
    rw [hrow] at hb hput
    obtain rfl : b = true := hb
    rcases hput with ⟨hnone, -⟩ | ⟨r', hr', rfl⟩
    · cases hnone
    · cases hr'
      exact ⟨rfl, by rw [slot_fresh], hsees⟩

/-- An insert under a new identifier is not refused, where nothing clashes. -/
theorem isSome_of_insertFresh (h : t.insertFresh m i (fun _ => false) r = some (o, t')) :
    o.isSome = true := by
  obtain ⟨⟨b, t₁⟩, hins, he⟩ := Option.map_eq_some_iff.mp h
  cases he
  have hcontest : ∀ l, contests m i (fun _ => false) (t.slot l) = false := by
    intro l
    rw [contests]
    split
    · rcases (t.slot l).committed with _ | r' <;> simp
    · rfl
  have hsees : ∀ l, (t.row i l).any (fun _ => false) = false := by
    intro l
    rcases t.row i l with _ | r' <;> rfl
  have hnone : (t.keys.any fun _ => false) = false := by simp
  simp only [insertUnique, hcontest, hsees, hnone, Bool.false_eq_true, if_false] at hins
  obtain ⟨-, hb, -⟩ := modify_cases hins
  have hrow : t.row i t.fresh = none := by
    rw [row, slot_fresh]
    rfl
  rw [hrow] at hb
  obtain rfl : b = true := hb
  rfl

theorem effect_of_insertFresh {A : ℕ → Option R → R → Prop}
    (h : t.insertFresh m i clash r = some (o, t')) (hA : A t.fresh none r) : Effect A i t t' := by
  obtain ⟨-, ⟨-, rfl⟩ | ⟨-, rfl, -⟩⟩ := insertFresh_cases h
  · exact .keep _
  · have hrow : t.row i t.fresh = none := by
      rw [row, slot_fresh]
      rfl
    rw [← slot_fresh t]
    exact .put m (by rw [slot_fresh]; rfl) (hrow ▸ hA)

/-- An insert of an open transaction publishes nothing. -/
theorem committed_insertFresh (h : t.insertFresh .tx i clash r = some (o, t')) (l : ℕ) :
    (t'.slot l).committed = (t.slot l).committed := by
  obtain ⟨-, ⟨-, rfl⟩ | ⟨-, rfl, -⟩⟩ := insertFresh_cases h
  · rfl
  · rcases eq_or_ne l t.fresh with rfl | hne
    · rw [slot_put_self, slot_fresh]
      rfl
    · rw [slot_put_of_ne hne]

theorem AtMostOne.insertFresh (ht : t.AtMostOne grp)
    (h : t.insertFresh m i clash r = some (o, t'))
    (hclash : ∀ g r', grp r = some g → grp r' = some g → clash r' = true) : t'.AtMostOne grp := by
  obtain ⟨⟨b, t₁⟩, hins, he⟩ := Option.map_eq_some_iff.mp h
  cases he
  exact ht.insertUnique hins hclash

end Fresh

omit [DecidableEq K] in
/-- **A commit keeps at most one row in each group.** -/
theorem AtMostOne.commit (ht : t.AtMostOne grp) : (t.commit i).AtMostOne grp := by
  have hpub : ∀ {k g}, (t.commit i).Published grp k g →
      t.Pending grp i k g ∨ t.Published grp k g ∧ ¬ t.Leaving grp i k g := by
    rintro k g ⟨r, hr, hg⟩
    rw [slot_commit, Slot.commit_committed] at hr
    rcases Slot.visible_cases i (t.slot k) with hi | hc
    · exact Or.inl ⟨r, by rw [hi, hr], hg⟩
    · refine Or.inr ⟨⟨r, hc.symm.trans hr, hg⟩, fun ⟨v, hv, hne⟩ => hne r ?_ hg⟩
      rw [← hr, Slot.visible_of_held hv]
  have hpend : ∀ {j k g}, (t.commit i).Pending grp j k g → j ≠ i ∧ t.Pending grp j k g := by
    rintro j k g ⟨r, hr, hg⟩
    obtain ⟨hne, hr⟩ := Slot.lock_of_commit hr
    exact ⟨hne, r, hr, hg⟩
  have hleave : ∀ {j k g}, j ≠ i → t.Leaving grp j k g → (t.commit i).Leaving grp j k g := by
    rintro j k g hne ⟨v, hv, hout⟩
    exact ⟨v, by rw [slot_commit, Slot.commit_of_other hv hne, hv], hout⟩
  refine ⟨fun {k l g} h₁ h₂ => ?_, fun {j k l g} h₁ h₂ => ?_, fun {_ j k l g} h₁ h₂ => ?_⟩
  · rcases hpub h₁ with h₁ | ⟨h₁, hn₁⟩ <;> rcases hpub h₂ with h₂ | ⟨h₂, hn₂⟩
    · exact ht.pending h₁ h₂
    · exact ((ht.replaced h₁ h₂).resolve_right hn₂).symm
    · exact (ht.replaced h₂ h₁).resolve_right hn₁
    · exact ht.published h₁ h₂
  · obtain ⟨hne, h₁⟩ := hpend h₁
    rcases hpub h₂ with h₂ | ⟨h₂, -⟩
    · exact Or.inl (ht.pending h₂ h₁)
    · exact (ht.replaced h₁ h₂).imp_right (hleave hne)
  · exact ht.pending (hpend h₁).2 (hpend h₂).2

omit [DecidableEq K] in
theorem AtMostOne.rollback (ht : t.AtMostOne grp) : (t.rollback i).AtMostOne grp := by
  have hpub : ∀ {k g}, (t.rollback i).Published grp k g → t.Published grp k g := by
    rintro k g ⟨r, hr, hg⟩
    rw [slot_rollback, Slot.rollback_committed] at hr
    exact ⟨r, hr, hg⟩
  have hpend : ∀ {j k g}, (t.rollback i).Pending grp j k g → j ≠ i ∧ t.Pending grp j k g := by
    rintro j k g ⟨r, hr, hg⟩
    obtain ⟨hne, hr⟩ := Slot.lock_of_rollback hr
    exact ⟨hne, r, hr, hg⟩
  refine ⟨fun h₁ h₂ => ht.published (hpub h₁) (hpub h₂), fun {j k l g} h₁ h₂ => ?_,
    fun h₁ h₂ => ht.pending (hpend h₁).2 (hpend h₂).2⟩
  obtain ⟨hne, h₁⟩ := hpend h₁
  refine (ht.replaced h₁ (hpub h₂)).imp_right fun ⟨v, hv, hout⟩ => ⟨v, ?_, hout⟩
  rw [slot_rollback, Slot.rollback_of_other hv hne, hv]

omit [DecidableEq ι] [DecidableEq K] in
/-- A table with no lock, and at most one published row in each group. -/
theorem AtMostOne.of_unlocked (hnone : ∀ k, (t.slot k).lock = none)
    (h : ∀ {k l g}, t.Published grp k g → t.Published grp l g → k = l) : t.AtMostOne grp :=
  ⟨h, fun hp _ => absurd hp (not_pending_of_unlocked (hnone _)),
    fun hp _ => absurd hp (not_pending_of_unlocked (hnone _))⟩

end Table

end ReadCommitted
