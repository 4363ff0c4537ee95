import Marketplace.Keyset.Loop
import Marketplace.ReadCommitted.Undisturbed
import Marketplace.Registry.Service

/-!
# The nightly check of the badges

The loop over the listings reads a page of them, after the last one that it has checked, and writes
the badges of the page. It writes the rows that it pages over, but no identifiers, so it comes to
every listing once, and then to an empty page (`Marketplace.Registry.recomputeAll_undisturbed`). A
badge is what the rule makes of the claim and the licence, on the day on which the loop comes to the
listing: time may pass while it runs, and midnight with it.
-/

namespace Marketplace.Registry

open ReadCommitted

variable (atlas : Atlas)

/-! ### What the loop pages over -/

/-- The listings that process `j` sees, in the order of their identifiers. -/
def contractorIds (j : ℕ) (db : Db) : List Uuid :=
  Keyset.inOrder (db.contractors.scan j fun _ _ => true)

/-- Nobody is writing a listing. -/
def Db.AtRest (db : Db) : Prop := ∀ k, (db.contractors.slot k).lock = none

/-- A listing, checked at a time. -/
def Contractor.checked (j : ℕ) (db : Db) (now : Instant) (c : Contractor) : Contractor :=
  (Change.verification (decideBadge atlas (today now) c.isClaimed (db.licenseOf j c)) now
    (today now)).apply c

/-- Whose badge an update writes. -/
def ListingStatement.badgeOf {β : Type} : ListingStatement β → Option Uuid
  | .update id (.verification _ _ _) => some id
  | _ => none

/-- Whose badge a query writes. -/
def Query.badgeOf {β : Type} : Query β → Option Uuid
  | .listing _ q => q.badgeOf
  | _ => none

/-- **Whose badges are written**, in turn. -/
def badgesOf (log : List (Sigma Query)) : List Uuid := log.filterMap fun q => q.2.badgeOf

/-- **So far these listings have been checked**, each since the loop has begun, and nothing else has
happened. -/
structure Rechecked (j : ℕ) (db₀ : Db) (done : List Uuid) (db : Db) : Prop where
  own : db.contractors.Own j
  keys : db.contractors.keys = db₀.contractors.keys
  licenses : ∀ k, db.licenses.row j k = db₀.licenses.row j k
  clock_le : db₀.clock ≤ db.clock
  checked : ∀ k ∈ done, ∃ now, db₀.clock ≤ now ∧ now ≤ db.clock ∧
    db.contractors.row j k = (db₀.contractors.row j k).map (Contractor.checked atlas j db₀ now)
  others : ∀ k ∉ done, db.contractors.row j k = db₀.contractors.row j k

section

variable {atlas} {j : ℕ} {db₀ db : Db} {done : List Uuid} {log : List (Sigma Query)}

theorem mem_contractorIds {k : Uuid} :
    k ∈ contractorIds j db ↔ ∃ c, db.contractors.row j k = some c := by
  rw [contractorIds, Keyset.mem_inOrder, Table.mem_scan]
  simp

theorem pairwise_contractorIds : (contractorIds j db).Pairwise (· < ·) :=
  Keyset.pairwise_inOrder (db.contractors.nodup.filter _)

/-- The page after a listing. -/
theorem contractorsAfter_eq (last : Option Uuid) (page : ℕ) :
    contractorsAfter last page j db = Keyset.after page last (contractorIds j db) := by
  have hscan : (db.contractors.scan j fun id _ => last.all fun a => decide (a < id)) =
      (db.contractors.scan j fun _ _ => true).filter fun id => last.all fun a => decide (a < id) := by
    rw [Table.scan, Table.scan, List.filter_filter]
    refine List.filter_congr fun k _ => ?_
    cases db.contractors.row j k <;> simp
  rw [Keyset.after, contractorIds, ← Keyset.inOrder_filter, ← hscan]
  rfl

namespace Rechecked

theorem start (h : db.AtRest) : Rechecked atlas j db [] db where
  own := Table.own_of_unlocked h
  keys := rfl
  licenses := fun _ => rfl
  clock_le := le_rfl
  checked := by simp
  others := fun _ _ => rfl

/-- Time passes. -/
theorem tick (h : Rechecked atlas j db₀ done db) (n : ℕ) :
    Rechecked atlas j db₀ done ((registry atlas).tick n db) where
  own := h.own
  keys := h.keys
  licenses := h.licenses
  clock_le := h.clock_le.trans (Nat.le_add_right _ n)
  checked := by
    intro k hk
    obtain ⟨now, hfrom, hto, hrow⟩ := h.checked k hk
    exact ⟨now, hfrom, hto.trans (Nat.le_add_right _ n), hrow⟩
  others := h.others

/-- A listing is there as it was there. -/
theorem isSome_row (h : Rechecked atlas j db₀ done db) (k : Uuid) :
    (db.contractors.row j k).isSome = (db₀.contractors.row j k).isSome := by
  by_cases hk : k ∈ done
  · obtain ⟨now, -, -, hrow⟩ := h.checked k hk
    rw [hrow, Option.isSome_map]
  · rw [h.others k hk]

/-- The listings are the same. -/
theorem contractorIds_eq (h : Rechecked atlas j db₀ done db) :
    contractorIds j db = contractorIds j db₀ := by
  rw [contractorIds, contractorIds, Table.scan, Table.scan, h.keys]
  congr 1
  refine List.filter_congr fun k _ => ?_
  have hsome := h.isSome_row k
  cases hrow : db.contractors.row j k <;> cases hrow₀ : db₀.contractors.row j k <;> simp_all

theorem licenseOf_eq (h : Rechecked atlas j db₀ done db) (c : Contractor) :
    db.licenseOf j c = db₀.licenseOf j c := by
  rw [Db.licenseOf, Db.licenseOf]
  cases c.licenseRecordId with
  | none => rfl
  | some l => exact h.licenses l

/-- A commit. -/
theorem commit (h : Rechecked atlas j db₀ done db) :
    Rechecked atlas j db₀ done (db.commit j) where
  own := h.own.commit
  keys := h.keys
  licenses := fun k => Table.row_commit.trans (h.licenses k)
  clock_le := h.clock_le
  checked := by
    intro k hk
    obtain ⟨now, hfrom, hto, hrow⟩ := h.checked k hk
    exact ⟨now, hfrom, hto, Table.row_commit.trans hrow⟩
  others := fun k hk => Table.row_commit.trans (h.others k hk)

theorem atRest_commit (h : Rechecked atlas j db₀ done db) : (db.commit j).AtRest := by
  intro k
  exact congrArg Slot.lock (h.own.slot_commit (k := k))

/-- **A badge is written.** -/
theorem write (h : Rechecked atlas j db₀ done db) {id : Uuid} (hid : id ∉ done) {c : Contractor}
    (hrow : db₀.contractors.row j id = some c) {now : Instant} (hfrom : db₀.clock ≤ now)
    (hto : now ≤ db.clock) :
    ∃ db', (registry atlas).run (.listing .tx (.update id (.verification
        (decideBadge atlas (today now) c.isClaimed (db₀.licenseOf j c)) now (today now)))) j db =
          some (some true, db') ∧ Rechecked atlas j db₀ (done ++ [id]) db' := by
  have hrow' : db.contractors.row j id = some c := (h.others id hid).trans hrow
  have hf : Table.checking (fun _ => true) (fun c' : Contractor =>
      if (Change.verification (decideBadge atlas (today now) c.isClaimed (db₀.licenseOf j c)) now
        (today now)).checks then some ((Change.verification (decideBadge atlas (today now)
          c.isClaimed (db₀.licenseOf j c)) now (today now)).apply c') else none)
      (db.contractors.row j id) = (some true, some (c.checked atlas j db₀ now)) := by
    rw [hrow']
    rfl
  obtain ⟨t, ht, hown, hrows, hkeys⟩ := h.own.modify_put hf
  have hmem : id ∈ db.contractors.keys := by
    by_contra hnot
    rw [Table.row, db.contractors.empty_of_not_mem id hnot] at hrow'
    exact Option.some_ne_none c hrow'.symm
  refine ⟨{ db with contractors := t }, ?_, hown, ?_, h.licenses, h.clock_le, ?_, ?_⟩
  · exact Option.map_eq_some_iff.mpr ⟨(some true, t), ht, rfl⟩
  · rw [← h.keys]
    exact hkeys.trans (if_pos hmem)
  · intro k hk
    rcases List.mem_append.mp hk with hk | hk
    · obtain ⟨now', hfrom', hto', hrow'⟩ := h.checked k hk
      have hne : k ≠ id := fun heq => hid (heq ▸ hk)
      exact ⟨now', hfrom', hto', ((hrows k).trans (if_neg hne)).trans hrow'⟩
    · obtain rfl := List.mem_singleton.mp hk
      refine ⟨now, hfrom, hto, ((hrows k).trans (if_pos rfl)).trans ?_⟩
      rw [hrow]
      rfl
  · intro k hk
    rw [List.mem_append, not_or, List.mem_singleton] at hk
    exact ((hrows k).trans (if_neg hk.2)).trans (h.others k hk.1)

end Rechecked

/-! ### The loop -/

theorem badgesOf_append (log log' : List (Sigma Query)) :
    badgesOf (log ++ log') = badgesOf log ++ badgesOf log' := List.filterMap_append

/-- One listing. -/
theorem recompute_undisturbed (h : Rechecked atlas j db₀ done db) {id : Uuid} (hid : id ∉ done)
    (hmem : id ∈ contractorIds j db₀) :
    (recompute atlas id).run.Undisturbed (registry atlas) j (fun r log' db' =>
      (∃ outcome, r = .ok outcome) ∧ badgesOf log' = badgesOf log ++ [id] ∧
        Rechecked atlas j db₀ (done ++ [id]) db') log db := by
  obtain ⟨c, hrow⟩ := mem_contractorIds.mp hmem
  refine Action.undisturbed_look fun n => Action.undisturbed_look fun n' =>
    Action.undisturbed_look fun n'' => ?_
  have h := ((h.tick n).tick n')
  have hinputs : ((registry atlas).tick n db).contractors.row j id = some c :=
    (h.others id hid).trans hrow
  have hfacts : (((registry atlas).tick n' ((registry atlas).tick n db)).contractors.row j id).bind
      (((registry atlas).tick n' ((registry atlas).tick n db)).licenseOf j) =
        db₀.licenseOf j c := by
    rw [(h.others id hid).trans hrow]
    exact h.licenseOf_eq c
  have h := h.tick n''
  rw [hinputs, hfacts]
  refine Action.undisturbed_andThen (Action.undisturbed_query fun m => ?_)
  obtain ⟨db', hrun, hdone⟩ := (h.tick m).write hid hrow h.clock_le (Nat.le_add_right _ m)
  refine ⟨some true, db', hrun, (), rfl, ⟨_, rfl⟩, ?_, hdone⟩
  rw [badgesOf_append]
  rfl

/-- The listings of a page. -/
theorem recomputeEach_undisturbed {ids : List Uuid} (h : Rechecked atlas j db₀ done db)
    (hnodup : (done ++ ids).Nodup) (hmem : ∀ id ∈ ids, id ∈ contractorIds j db₀) :
    (recomputeEach atlas ids).run.Undisturbed (registry atlas) j (fun r log' db' =>
      r = .ok () ∧ badgesOf log' = badgesOf log ++ ids ∧
        Rechecked atlas j db₀ (done ++ ids) db') log db := by
  induction ids generalizing done log db with
  | nil =>
    rw [List.append_nil, List.append_nil]
    exact ⟨rfl, rfl, h⟩
  | cons id ids ih =>
    have hid : id ∉ done := fun hdone =>
      (List.nodup_append.mp hnodup).2.2 id hdone id List.mem_cons_self rfl
    refine Action.undisturbed_andThen
      ((recompute_undisturbed h hid (hmem id List.mem_cons_self)).mono ?_)
    rintro _ log' db' ⟨⟨outcome, rfl⟩, hlog, hdone⟩
    refine ⟨outcome, rfl, ?_⟩
    rw [List.append_cons] at hnodup
    refine (ih hdone hnodup fun k hk => hmem k (List.mem_cons_of_mem id hk)).mono ?_
    rintro r log'' db'' ⟨hr, hlog', hdone'⟩
    rw [hlog', hlog, List.append_assoc]
    rw [List.append_assoc] at hdone'
    exact ⟨hr, rfl, hdone'⟩

/-- **The loop, from a page on.** -/
theorem recomputeAll_from {page pages : ℕ} {rest : List Uuid} (hpage : 0 < page)
    (hpages : rest.length < pages) (h : Rechecked atlas j db₀ done db) (hrest : db.AtRest)
    (hids : contractorIds j db₀ = done ++ rest) :
    (recomputeAll atlas page pages done.getLast? done.length).run.Undisturbed (registry atlas) j
      (fun r log' db' => r = .ok (contractorIds j db₀).length ∧
        badgesOf log' = badgesOf log ++ rest ∧
          Rechecked atlas j db₀ (contractorIds j db₀) db' ∧ db'.AtRest) log db := by
  induction pages generalizing done rest log db with
  | zero => omega
  | succ pages ih =>
    refine Action.undisturbed_look fun n => ?_
    have h := h.tick n
    have hlook : contractorsAfter done.getLast? page j ((registry atlas).tick n db) =
        rest.take page := by
      rw [contractorsAfter_eq, h.contractorIds_eq, hids]
      exact Keyset.after_append (hids ▸ pairwise_contractorIds) page
    rw [hlook]
    rcases rest with _ | ⟨id, rest⟩
    · -- nothing is left
      rw [List.append_nil] at hids
      rw [List.take_nil, hids, List.append_nil]
      exact ⟨rfl, rfl, h, hrest⟩
    · obtain ⟨page, rfl⟩ : ∃ m, page = m + 1 := ⟨page - 1, by omega⟩
      have htake : (id :: rest).take (page + 1) = id :: rest.take page := rfl
      have hsplit : contractorIds j db₀ =
          (done ++ (id :: rest).take (page + 1)) ++ (id :: rest).drop (page + 1) := by
        rw [List.append_assoc, List.take_append_drop, hids]
      have hnodup : (done ++ (id :: rest).take (page + 1)).Nodup := by
        have hall : (contractorIds j db₀).Nodup := pairwise_contractorIds.imp fun h => h.ne
        rw [hsplit] at hall
        exact (List.nodup_append.mp hall).1
      have hmem : ∀ k ∈ (id :: rest).take (page + 1), k ∈ contractorIds j db₀ := by
        intro k hk
        rw [hsplit]
        exact List.mem_append_left _ (List.mem_append_right _ hk)
      have hlast : ((id :: rest).take (page + 1)).getLast? =
          (done ++ (id :: rest).take (page + 1)).getLast? := by
        rw [htake, List.getLast?_append_cons]
      have hfull : ((id :: rest).take (page + 1)).isEmpty = false := rfl
      rw [hfull, if_neg Bool.false_ne_true, hlast, ← List.length_append]
      -- the page is checked and published, and what comes after it is the rest
      refine Action.undisturbed_andThen (Action.undisturbed_transaction
        ((recomputeEach_undisturbed h hnodup hmem).mono ?_))
      rintro _ log' db' ⟨rfl, hlog, hdone⟩
      refine ⟨(), rfl, fun n' => ⟨(), _, rfl, (), rfl, ?_⟩⟩
      have hdone := (hdone.tick n')
      have hshort : ((id :: rest).drop (page + 1)).length < pages := by
        rw [List.length_drop]
        rw [List.length_cons] at hpages ⊢
        omega
      refine (ih hshort hdone.commit hdone.atRest_commit hsplit).mono ?_
      rintro r log'' db'' ⟨hr, hlog', hdb⟩
      refine ⟨hr, ?_, hdb⟩
      have hcommit : badgesOf [⟨_, Query.commit⟩] = [] := rfl
      rw [hlog', badgesOf_append, hlog, hcommit, List.append_nil, List.append_assoc,
        List.take_append_drop]

/-! ### What it leaves -/

/-- A badge that is given is of a claimed listing with an active licence, which has not expired. -/
theorem of_verified {day : ℕ} {claimed : Bool} {facts : Option License}
    (h : (decideBadge atlas day claimed facts).verified = true) :
    claimed = true ∧ ∃ l, facts = some l ∧ l.status = .active ∧ l.isExpired day = false := by
  rcases facts with - | l
  · exact absurd h Bool.false_ne_true
  rw [decideBadge] at h
  by_cases hstatus : l.status ≠ .active
  · rw [if_pos hstatus] at h
    exact absurd h Bool.false_ne_true
  by_cases hexpired : l.isExpired day = true
  · rw [if_neg hstatus, if_pos hexpired] at h
    exact absurd h Bool.false_ne_true
  by_cases hclaimed : (!claimed) = true
  · rw [if_neg hstatus, if_neg hexpired, if_pos hclaimed] at h
    exact absurd h Bool.false_ne_true
  · exact ⟨by simpa using hclaimed, l, rfl, not_not.mp hstatus, eq_false_of_ne_true hexpired⟩

/-- **The badges are right**: of every listing its badge is what the rule made of its claim and its
licence while the loop ran. -/
structure BadgesRight (atlas : Atlas) (j : ℕ) (db db' : Db) : Prop where
  atRest : db'.AtRest
  badge : ∀ k, ∃ now, db.clock ≤ now ∧ now ≤ db'.clock ∧ (db'.contractors.slot k).committed =
    (db.contractors.slot k).committed.map (Contractor.checked atlas j db now)
  verified : ∀ k, ∀ c ∈ (db'.contractors.slot k).committed, c.verified = true →
    c.isClaimed = true ∧ ∃ l, db'.licenseOf j c = some l ∧ l.status = .active ∧
      ∃ now, db.clock ≤ now ∧ now ≤ db'.clock ∧ l.isExpired (today now) = false

theorem Db.AtRest.row_eq (h : db.AtRest) (k : Uuid) :
    db.contractors.row j k = (db.contractors.slot k).committed :=
  Slot.visible_of_unlocked (h k)

theorem Rechecked.badgesRight {db' : Db} (h : Rechecked atlas j db (contractorIds j db) db')
    (hrest : db.AtRest) (hrest' : db'.AtRest) : BadgesRight atlas j db db' := by
  have hbadge (k : Uuid) : ∃ now, db.clock ≤ now ∧ now ≤ db'.clock ∧
      (db'.contractors.slot k).committed =
        (db.contractors.slot k).committed.map (Contractor.checked atlas j db now) := by
    rw [← hrest.row_eq (j := j), ← hrest'.row_eq (j := j)]
    by_cases hk : k ∈ contractorIds j db
    · exact h.checked k hk
    · refine ⟨db.clock, le_rfl, h.clock_le, (h.others k hk).trans ?_⟩
      have hnone : db.contractors.row j k = none := by
        by_contra hne
        exact hk (mem_contractorIds.mpr (Option.ne_none_iff_exists'.mp hne))
      rw [hnone]
      rfl
  refine ⟨hrest', hbadge, ?_⟩
  intro k c' hc' hverified
  obtain ⟨now, hfrom, hto, hrow⟩ := hbadge k
  rw [Option.mem_def.mp hc'] at hrow
  obtain ⟨c, -, rfl⟩ := Option.map_eq_some_iff.mp hrow.symm
  obtain ⟨hclaimed, l, hl, hactive, hexpired⟩ := of_verified hverified
  refine ⟨hclaimed, l, ?_, hactive, now, hfrom, hto, hexpired⟩
  rw [← hl, ← h.licenseOf_eq c]
  rfl

/-- **The nightly check of the badges** comes to every listing once, and ends. -/
theorem recomputeAll_undisturbed {page pages : ℕ} (hpage : 0 < page) (hrest : db.AtRest)
    (hpages : (contractorIds j db).length < pages) :
    (recomputeAll atlas page pages none 0).run.Undisturbed (registry atlas) j
      (fun r log db' => r = .ok (contractorIds j db).length ∧ badgesOf log = contractorIds j db ∧
        BadgesRight atlas j db db') [] db := by
  refine (recomputeAll_from hpage hpages (.start hrest) hrest (List.nil_append _).symm).mono ?_
  rintro r log db' ⟨hr, hlog, hdone, hrest'⟩
  exact ⟨hr, hlog, hdone.badgesRight hrest hrest'⟩

end

end Marketplace.Registry
