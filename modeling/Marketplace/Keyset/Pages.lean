import Mathlib.Data.List.Nodup
import Mathlib.Data.List.Perm.Basic
import Mathlib.Tactic.Common

/-!
# Paging by keyset

A list of rows is handed out page by page. A page is asked for with the cursor that the
page before it returned; the cursor names the last row shown, by the values it sorts
by, and the query keeps the rows it *accepts* as coming after that one. One row more
than the page shows is fetched, and its presence is what says that there is a next
page.

`Keyset.Walk` is a client following the cursors until there is none. Whether the pages
put together are the whole list, once each and in order, is a matter of what happens at
the **boundaries**, the places where a page ends: they are, if at every boundary the
query accepts the rows still to come and no others and has them in the same order
(`Keyset.walk_of_resumes`). That is also necessary, under either of two assumptions.

| the rows | what is assumed | theorem |
|---|---|---|
| in one order throughout | acceptance is transitive | `Keyset.walk_iff_of_order` |
| in an order that changes from page to page | a row after the last one shown is accepted next | `Keyset.walk_iff_of_keeps` |

The first is a keyset compared with the stored values of the rows; what it may get
wrong is which rows it accepts. The second is a keyset compared with values computed
anew for each page; what it may get wrong is to accept rows already shown.
-/

namespace Keyset

variable {α β κ : Type*}

/-! ### Pages -/

/-- The page out of the rows fetched: with more rows than the page shows, all but the
last of them, and the cursor of the last one left. -/
def takeNext (limit : ℕ) (key : α → κ) (rows : List α) : List α × Option κ :=
  if limit < rows.length then (rows.dropLast, rows.dropLast.getLast?.map key) else (rows, none)

/-- The page of a query that fetches one row more than it shows. -/
def page (limit : ℕ) (key : α → κ) (found : List α) : List α × Option κ :=
  takeNext limit key (found.take (limit + 1))

/-- The page of projected rows. -/
theorem takeNext_map {limit : ℕ} {g : β → α} (key : α → κ) (rows : List β) :
    takeNext limit key (rows.map g) =
      ((takeNext limit (key ∘ g) rows).1.map g, (takeNext limit (key ∘ g) rows).2) := by
  rw [takeNext, takeNext, List.length_map]
  split
  · rw [← List.map_dropLast, List.getLast?_map, Option.map_map]
  · rfl

theorem page_of_le {limit : ℕ} {found : List α} (key : α → κ) (h : found.length ≤ limit) :
    page limit key found = (found, none) := by
  have ht : found.take (limit + 1) = found := List.take_of_length_le (by omega)
  rw [page, ht, takeNext, if_neg (by omega)]

theorem page_of_lt {limit : ℕ} {found : List α} (key : α → κ) (h : limit < found.length) :
    page limit key found = (found.take limit, (found.take limit).getLast?.map key) := by
  have ht : (found.take (limit + 1)).length = limit + 1 := by
    rw [List.length_take]
    omega
  have hd : (found.take (limit + 1)).dropLast = found.take limit := by
    rw [List.dropLast_eq_take, ht, List.take_take]
    congr 1
    omega
  rw [page, takeNext, if_pos (by omega), hd]

/-- The last row of a full page. -/
theorem getLast?_take {found : List α} {limit : ℕ} (hpos : 0 < limit)
    (h : limit < found.length) : (found.take limit).getLast? = found[limit - 1]? := by
  rw [List.getLast?_eq_getElem?, List.length_take, List.getElem?_take]
  have : min limit found.length = limit := by omega
  rw [this, if_pos (by omega)]

/-! ### Walks -/

/-- Lists with the same projection are the same, where the projection tells rows apart. -/
theorem map_inj_on {f : α → β} {l m : List α} (h : l.map f = m.map f)
    (hinj : ∀ a ∈ l, ∀ b ∈ m, f a = f b → a = b) : l = m := by
  induction l generalizing m with
  | nil => exact (List.map_eq_nil_iff.mp h.symm).symm
  | cons a l ih =>
    rcases m with _ | ⟨b, m⟩
    · simp at h
    · obtain ⟨hab, hlm⟩ := List.cons.inj h
      obtain rfl := hinj a List.mem_cons_self b List.mem_cons_self hab
      rw [ih hlm fun c hc d hd => hinj c (List.mem_cons_of_mem _ hc) d (List.mem_cons_of_mem _ hd)]

/-- **Following the cursors**: from page number `k` and cursor `c` on, the pages end and
put together are `xs`. Between two pages the cursor goes through `pass`. -/
inductive Walk (pages : ℕ → Option κ → List α × Option κ) (pass : κ → Option κ) :
    ℕ → Option κ → List α → Prop
  /-- The page names no next one. -/
  | last {k : ℕ} {c : Option κ} {xs : List α} (h : pages k c = (xs, none)) : Walk pages pass k c xs
  /-- The page names the next one. -/
  | more {k : ℕ} {c : Option κ} {d d' : κ} {xs ys : List α} (h : pages k c = (xs, some d))
      (hp : pass d = some d') (hw : Walk pages pass (k + 1) (some d') ys) :
      Walk pages pass k c (xs ++ ys)

namespace Walk

variable {pages : ℕ → Option κ → List α × Option κ} {pass : κ → Option κ}

/-- A walk has one outcome. -/
theorem unique {k : ℕ} {c : Option κ} {xs ys : List α} (hx : Walk pages pass k c xs)
    (hy : Walk pages pass k c ys) : xs = ys := by
  induction hx generalizing ys with
  | last h =>
    cases hy with
    | last h' => exact (Prod.mk.inj (h.symm.trans h')).1
    | more h' => exact absurd (Prod.mk.inj (h.symm.trans h')).2 (by simp)
  | more h hp _ ih =>
    cases hy with
    | last h' => exact absurd (Prod.mk.inj (h.symm.trans h')).2 (by simp)
    | more h' hp' hw' =>
      obtain ⟨rfl, hd⟩ := Prod.mk.inj (h.symm.trans h')
      obtain rfl := Option.some.inj hd
      obtain rfl := Option.some.inj (hp.symm.trans hp')
      rw [ih hw']

/-- A walk over pages of projected rows is the projection of a walk. -/
theorem map_iff {f : α → β} {k : ℕ} {c : Option κ} {ys : List β} :
    Walk (fun i d => ((pages i d).1.map f, (pages i d).2)) pass k c ys ↔
      ∃ xs, Walk pages pass k c xs ∧ ys = xs.map f := by
  constructor
  · intro h
    induction h with
    | @last k c ys h =>
      obtain ⟨h1, h2⟩ := Prod.mk.inj h
      exact ⟨_, last (Prod.ext rfl h2), h1.symm⟩
    | @more k c d d' ys zs h hp _ ih =>
      obtain ⟨h1, h2⟩ := Prod.mk.inj h
      obtain ⟨xs, hx, rfl⟩ := ih
      exact ⟨_, more (Prod.ext rfl h2) hp hx, by rw [List.map_append, h1]⟩
  · rintro ⟨xs, h, rfl⟩
    induction h with
    | last h => exact last (by rw [h])
    | more h hp _ ih =>
      rw [List.map_append]
      exact more (by rw [h]) hp ih

/-- What a walk collects comes from its pages. -/
theorem forall_mem {P : α → Prop} {k : ℕ} {c : Option κ} {xs : List α}
    (h : Walk pages pass k c xs) (hP : ∀ i d, ∀ x ∈ (pages i d).1, P x) : ∀ x ∈ xs, P x := by
  induction h with
  | @last k c xs h =>
    intro x hx
    exact hP k c x (by rw [h]; exact hx)
  | @more k c d d' xs ys h _ _ ih =>
    intro x hx
    rcases List.mem_append.mp hx with hx | hx
    · exact hP k c x (by rw [h]; exact hx)
    · exact ih x hx

/-- A walk over pages of projected rows, where the projection tells the rows apart. -/
theorem map_iff_of_injOn {f : α → β} {P : α → Prop} {k : ℕ} {c : Option κ} {xs : List α}
    (hinj : ∀ a b, P a → P b → f a = f b → a = b) (hxs : ∀ x ∈ xs, P x)
    (hpages : ∀ i d, ∀ x ∈ (pages i d).1, P x) :
    Walk (fun i d => ((pages i d).1.map f, (pages i d).2)) pass k c (xs.map f) ↔
      Walk pages pass k c xs := by
  rw [map_iff]
  constructor
  · rintro ⟨ys, hw, hmap⟩
    have hys : ∀ y ∈ ys, P y := hw.forall_mem hpages
    rw [map_inj_on hmap fun a ha b hb => hinj a b (hxs a ha) (hys b hb)]
    exact hw
  · exact fun hw => ⟨xs, hw, rfl⟩

/-- A walk whose cursors are sent in an encoding that is read back. -/
theorem encode {κ' : Type*} {enc : κ → κ'} {pages' : ℕ → Option κ' → List α × Option κ'}
    {k : ℕ} {c : Option κ} {xs : List α} (h : Walk pages pass k c xs)
    (hpages : ∀ k c, pages' k (c.map enc) = ((pages k c).1, (pages k c).2.map enc))
    (hpass : ∀ d, pass d = some d) : Walk pages' some k (c.map enc) xs := by
  induction h with
  | last h => exact last (by rw [hpages, h]; rfl)
  | @more k c d d' xs ys h hp _ ih =>
    obtain rfl := Option.some.inj ((hpass d).symm.trans hp)
    exact @more _ _ _ _ _ _ (enc d) (enc d) _ _ (by rw [hpages, h]; rfl) rfl ih

end Walk

/-! ### A keyset query -/

section Query

variable (limit : ℕ) (rows : ℕ → List α) (accepts : ℕ → κ → α → Bool) (key : ℕ → α → κ)

/-- The rows that page number `k` is taken from: all of them without a cursor, and with
one those it accepts. -/
def found (k : ℕ) : Option κ → List α
  | none => rows k
  | some c => (rows k).filter (accepts k c)

/-- The pages of the query. -/
def pages (k : ℕ) (c : Option κ) : List α × Option κ :=
  page limit (key k) (found rows accepts k c)

/-- **The query resumes after page number `k`**: if that page is full and rows are left,
then the cursor of its last row accepts those that are left and no others, and the next
page starts with the same ones. -/
def Resumes (k : ℕ) : Prop :=
  ∀ r ∈ (rows 0)[(k + 1) * limit - 1]?, (k + 1) * limit < (rows 0).length →
    (found rows accepts (k + 1) (some (key k r))).Perm ((rows 0).drop ((k + 1) * limit)) ∧
      (found rows accepts (k + 1) (some (key k r))).take limit =
        ((rows 0).drop ((k + 1) * limit)).take limit

variable {limit rows accepts key} {pass : κ → Option κ}

theorem found_sublist (k : ℕ) (c : Option κ) : (found rows accepts k c).Sublist (rows k) := by
  cases c with
  | none => exact List.Sublist.refl _
  | some c => exact List.filter_sublist

theorem mem_found_some {k : ℕ} {c : κ} {x : α} :
    x ∈ found rows accepts k (some c) ↔ x ∈ rows k ∧ accepts k c x = true :=
  List.mem_filter

/-- The rows of a page are rows of the query. -/
theorem mem_of_mem_pages {k : ℕ} {c : Option κ} {x : α}
    (h : x ∈ (pages limit rows accepts key k c).1) : x ∈ rows k := by
  have hfound : x ∈ found rows accepts k c := by
    rw [pages] at h
    rcases Nat.lt_or_ge limit (found rows accepts k c).length with hlt | hle
    · rw [page_of_lt _ hlt] at h
      exact List.mem_of_mem_take h
    · rwa [page_of_le _ hle] at h
  exact (found_sublist k c).subset hfound

/-- The last row of a page, by its place among all rows. -/
theorem getElem?_drop_last {D : List α} (hpos : 0 < limit) (k : ℕ) :
    (D.drop (k * limit))[limit - 1]? = D[(k + 1) * limit - 1]? := by
  rw [List.getElem?_drop]
  congr 1
  rw [Nat.add_mul, Nat.one_mul]
  omega

/-- One page of a query that has resumed rightly, and the walk from it on. -/
private theorem walk_from (hpos : 0 < limit) (hpass : ∀ d, pass d = some d)
    (h : ∀ k, Resumes limit rows accepts key k) (m : ℕ) :
    ∀ k c, (rows 0).length - k * limit ≤ m →
      (found rows accepts k c).Perm ((rows 0).drop (k * limit)) →
      (found rows accepts k c).take limit = ((rows 0).drop (k * limit)).take limit →
      Walk (pages limit rows accepts key) pass k c ((rows 0).drop (k * limit)) := by
  induction m with
  | zero =>
    intro k c hm hperm htake
    have hlen : (found rows accepts k c).length = 0 := by
      rw [hperm.length_eq, List.length_drop]
      omega
    have hnil : (rows 0).drop (k * limit) = [] := List.drop_eq_nil_of_le (by omega)
    refine Walk.last ?_
    rw [pages, page_of_le _ (by omega), hnil, List.length_eq_zero_iff.mp hlen]
  | succ m ih =>
    intro k c hm hperm htake
    have hlen : (found rows accepts k c).length = (rows 0).length - k * limit := by
      rw [hperm.length_eq, List.length_drop]
    rcases Nat.lt_or_ge limit (found rows accepts k c).length with hlt | hle
    · -- a full page: the walk goes on after its last row
      have hk : (k + 1) * limit = k * limit + limit := by rw [Nat.add_mul, Nat.one_mul]
      have hin : (k + 1) * limit - 1 < (rows 0).length := by omega
      obtain ⟨r, hr⟩ : ∃ r, (rows 0)[(k + 1) * limit - 1]? = some r :=
        ⟨_, List.getElem?_eq_getElem hin⟩
      have hlast : ((found rows accepts k c).take limit).getLast? = some r := by
        rw [htake, getLast?_take hpos (by rw [List.length_drop]; omega),
          getElem?_drop_last hpos, hr]
      have hpage : pages limit rows accepts key k c =
          (((rows 0).drop (k * limit)).take limit, some (key k r)) := by
        rw [pages, page_of_lt _ hlt, hlast, htake]
        rfl
      obtain ⟨hperm', htake'⟩ := h k r hr (by omega)
      have hrest := ih (k + 1) (some (key k r)) (by omega) hperm' htake'
      have hsplit : (rows 0).drop (k * limit) =
          ((rows 0).drop (k * limit)).take limit ++ (rows 0).drop ((k + 1) * limit) := by
        rw [hk, ← List.drop_drop, List.take_append_drop]
      rw [hsplit]
      exact Walk.more hpage (hpass _) hrest
    · -- the last page
      refine Walk.last ?_
      rw [pages, page_of_le _ hle]
      rw [List.take_of_length_le hle, List.take_of_length_le (by rw [List.length_drop]; omega)]
        at htake
      rw [htake]

/-- **Resuming rightly at every boundary is enough**: the pages put together are the
rows, in the order of the first page. -/
theorem walk_of_resumes (hpos : 0 < limit) (hpass : ∀ d, pass d = some d)
    (h : ∀ k, Resumes limit rows accepts key k) :
    Walk (pages limit rows accepts key) pass 0 none (rows 0) := by
  have := walk_from hpos hpass h (rows 0).length 0 none (by omega)
    (by rw [Nat.zero_mul]; exact List.Perm.refl _) (by rw [Nat.zero_mul]; rfl)
  rwa [Nat.zero_mul, List.drop_zero] at this

/-- **Induction on a walk**: its last page has no more rows than a page shows, and a page
before it is the first rows found, followed by the walk from the last of them. -/
@[elab_as_elim]
theorem walk_induction (hpos : 0 < limit) (hpass : ∀ d, pass d = some d)
    {motive : ∀ k c ys, Walk (pages limit rows accepts key) pass k c ys → Prop}
    (last : ∀ k c (hle : (found rows accepts k c).length ≤ limit),
      motive k c (found rows accepts k c) (.last (page_of_le _ hle)))
    (more : ∀ k c r zs (hlt : limit < (found rows accepts k c).length)
      (hr : ((found rows accepts k c).take limit).getLast? = some r)
      (hw : Walk (pages limit rows accepts key) pass (k + 1) (some (key k r)) zs),
      motive (k + 1) (some (key k r)) zs hw →
      motive k c ((found rows accepts k c).take limit ++ zs)
        (.more ((page_of_lt _ hlt).trans (by rw [hr]; rfl)) (hpass _) hw))
    {k : ℕ} {c : Option κ} {ys : List α} (h : Walk (pages limit rows accepts key) pass k c ys) :
    motive k c ys h := by
  induction h with
  | @last k c xs h =>
    rcases Nat.lt_or_ge limit (found rows accepts k c).length with hlt | hle
    · -- a page cut short names the next one
      have h' := h
      rw [pages, page_of_lt _ hlt, getLast?_take hpos hlt,
        List.getElem?_eq_getElem (show limit - 1 < _ by omega)] at h'
      exact absurd (Prod.mk.inj h').2 (by simp)
    · obtain rfl : found rows accepts k c = xs := by
        rw [pages, page_of_le _ hle] at h
        exact (Prod.mk.inj h).1
      exact last k c hle
  | @more k c d d' xs ys h hp hw ih =>
    rcases Nat.lt_or_ge limit (found rows accepts k c).length with hlt | hle
    · have h' := h
      rw [pages, page_of_lt _ hlt] at h'
      obtain ⟨rfl, hd⟩ := Prod.mk.inj h'
      obtain ⟨r, hr, rfl⟩ := Option.map_eq_some_iff.mp hd
      obtain rfl := Option.some.inj ((hpass _).symm.trans hp)
      exact more k c r ys hlt hr hw ih
    · rw [pages, page_of_le _ hle] at h
      exact absurd (Prod.mk.inj h).2 (by simp)

/-- The first rows of a walk are those of its first page. -/
theorem Walk.take_found (hpos : 0 < limit) (hpass : ∀ d, pass d = some d) {k : ℕ}
    {c : Option κ} {ys : List α} (h : Walk (pages limit rows accepts key) pass k c ys) :
    (found rows accepts k c).take limit = ys.take limit := by
  induction h using walk_induction hpos hpass with
  | last k c hle => rfl
  | more k c r zs hlt hr hw ih =>
    rw [List.take_append, List.take_take, Nat.min_self, List.length_take,
      Nat.min_eq_left (Nat.le_of_lt hlt), Nat.sub_self, List.take_zero, List.append_nil]

/-- One step of a walk that is not at its end: the next page starts from the last row of
this one. -/
theorem Walk.next (hpos : 0 < limit) (hpass : ∀ d, pass d = some d) {k : ℕ} {c : Option κ}
    {ys : List α} (h : Walk (pages limit rows accepts key) pass k c ys)
    (hlen : limit < ys.length) :
    ∃ r, ys[limit - 1]? = some r ∧
      Walk (pages limit rows accepts key) pass (k + 1) (some (key k r)) (ys.drop limit) := by
  induction h using walk_induction hpos hpass with
  | last k c hle => omega
  | more k c r zs hlt hr hw ih =>
    have hl : ((found rows accepts k c).take limit).length = limit := by
      rw [List.length_take]
      omega
    refine ⟨r, ?_, ?_⟩
    · rw [List.getElem?_append_left (by omega), ← hr, List.getLast?_eq_getElem?, hl]
    · rw [List.drop_left' hl]
      exact hw

/-- **What is left of a walk at a boundary**: the walk from there on collects the rows
still to come. -/
theorem Walk.at_boundary (hpos : 0 < limit) (hpass : ∀ d, pass d = some d) {D : List α}
    (h : Walk (pages limit rows accepts key) pass 0 none D) (k : ℕ)
    (hk : (k + 1) * limit < D.length) :
    ∃ r, D[(k + 1) * limit - 1]? = some r ∧
      Walk (pages limit rows accepts key) pass (k + 1) (some (key k r))
        (D.drop ((k + 1) * limit)) := by
  have hnext : ∀ k c, (k + 1) * limit < D.length →
      Walk (pages limit rows accepts key) pass k c (D.drop (k * limit)) →
      ∃ r, D[(k + 1) * limit - 1]? = some r ∧
        Walk (pages limit rows accepts key) pass (k + 1) (some (key k r))
          (D.drop ((k + 1) * limit)) := by
    intro k c hk hc
    have hmul : (k + 1) * limit = k * limit + limit := by rw [Nat.add_mul, Nat.one_mul]
    obtain ⟨r, hr, hw⟩ := hc.next hpos hpass (by rw [List.length_drop]; omega)
    rw [getElem?_drop_last hpos] at hr
    rw [List.drop_drop, ← hmul] at hw
    exact ⟨r, hr, hw⟩
  induction k with
  | zero => exact hnext 0 none hk (by rwa [Nat.zero_mul, List.drop_zero])
  | succ k ih =>
    have hmul : (k + 1 + 1) * limit = (k + 1) * limit + limit := by rw [Nat.add_mul, Nat.one_mul]
    obtain ⟨r, -, hw⟩ := ih (by omega)
    exact hnext (k + 1) _ hk hw

/-- A row is not among the first ones and among the rest. -/
theorem not_mem_take_of_mem_drop {D : List α} (hD : D.Nodup) {n : ℕ} {x : α}
    (hx : x ∈ D.drop n) : x ∉ D.take n := fun h =>
  List.disjoint_of_nodup_append (by rwa [List.take_append_drop]) h hx

end Query

/-! ### Rows in one order -/

section Fixed

variable {limit : ℕ} {D : List α} {accepts : κ → α → Bool} {key : α → κ} {pass : κ → Option κ}

/-- Everything a walk goes on to collect is accepted by its cursor. -/
theorem Walk.accepts_of_mem (hpos : 0 < limit) (hpass : ∀ d, pass d = some d)
    (htrans : ∀ r s x, accepts (key r) s = true → accepts (key s) x = true →
      accepts (key r) x = true) {k : ℕ} {r : α} {ys : List α}
    (h : Walk (pages limit (fun _ => D) (fun _ => accepts) fun _ => key) pass k (some (key r)) ys) :
    ∀ y ∈ ys, accepts (key r) y = true := by
  generalize hc : some (key r) = c at h
  induction h using walk_induction hpos hpass generalizing r with
  | last k c hle =>
    subst hc
    intro y hy
    exact (mem_found_some.mp hy).2
  | more k c s zs hlt hs hw ih =>
    subst hc
    have hrs : accepts (key r) s = true :=
      (mem_found_some.mp (List.mem_of_mem_take (List.mem_of_getLast? hs))).2
    intro y hy
    rcases List.mem_append.mp hy with hy | hy
    · exact (mem_found_some.mp (List.mem_of_mem_take hy)).2
    · exact htrans r s y hrs (ih rfl y hy)

/-- **Walks over rows in one order**: the pages put together are the rows, once each and
in order, if and only if at every boundary the cursor accepts exactly the rows still to
come. -/
theorem walk_iff_of_trans (hpos : 0 < limit) (hpass : ∀ d, pass d = some d) (hD : D.Nodup)
    (htrans : ∀ r s x, accepts (key r) s = true → accepts (key s) x = true →
      accepts (key r) x = true) :
    Walk (pages limit (fun _ => D) (fun _ => accepts) fun _ => key) pass 0 none D ↔
      ∀ k, ∀ r ∈ D[(k + 1) * limit - 1]?, (k + 1) * limit < D.length →
        D.filter (accepts (key r)) = D.drop ((k + 1) * limit) := by
  constructor
  · intro h k r hr hk
    obtain ⟨r', hr', hw⟩ := h.at_boundary hpos hpass k hk
    obtain rfl := Option.some.inj (hr'.symm.trans hr)
    have hkept : (D.drop ((k + 1) * limit)).filter (accepts (key r')) =
        D.drop ((k + 1) * limit) := by
      rw [List.filter_eq_self]
      exact hw.accepts_of_mem hpos hpass htrans
    -- a row shown before that is accepted again would come first on the next page
    have hnone : (D.take ((k + 1) * limit)).filter (accepts (key r')) = [] := by
      rcases hf : (D.take ((k + 1) * limit)).filter (accepts (key r')) with _ | ⟨x, xs⟩
      · rfl
      · have htake := hw.take_found hpos hpass
        have hfound : found (fun _ => D) (fun _ => accepts) (k + 1) (some (key r')) =
            x :: (xs ++ (D.drop ((k + 1) * limit)).filter (accepts (key r'))) := by
          rw [← List.cons_append, ← hf, ← List.filter_append, List.take_append_drop]
          rfl
        have hx : x ∈ (found (fun _ => D) (fun _ => accepts) (k + 1)
            (some (key r'))).take limit := by
          obtain ⟨l, rfl⟩ : ∃ l, limit = l + 1 := ⟨limit - 1, by omega⟩
          rw [hfound, List.take_succ_cons]
          exact List.mem_cons_self
        have hlate : x ∈ D.drop ((k + 1) * limit) := by
          rw [htake] at hx
          exact List.mem_of_mem_take hx
        have hearly : x ∈ D.take ((k + 1) * limit) :=
          List.mem_of_mem_filter (by rw [hf]; exact List.mem_cons_self)
        exact absurd hearly (not_mem_take_of_mem_drop hD hlate)
    calc D.filter (accepts (key r'))
        = (D.take ((k + 1) * limit) ++ D.drop ((k + 1) * limit)).filter (accepts (key r')) := by
          rw [List.take_append_drop]
      _ = D.drop ((k + 1) * limit) := by rw [List.filter_append, hnone, hkept, List.nil_append]
  · intro h
    refine walk_of_resumes hpos hpass fun k r hr hk => ?_
    have heq : found (fun _ => D) (fun _ => accepts) (k + 1) (some (key r)) =
        D.drop ((k + 1) * limit) := h k r hr hk
    exact ⟨by rw [heq], by rw [heq]⟩

theorem nodup_of_pairwise {lt : α → α → Prop} (hs : D.Pairwise lt)
    (hasymm : ∀ x y, lt x y → ¬lt y x) : D.Nodup := by
  refine hs.imp ?_
  rintro x y hlt rfl
  exact hasymm x x hlt hlt

/-- A list is cut at the row before a place in it. -/
theorem split_at {n : ℕ} {r : α} (hpos : 0 < n) (h : D[n - 1]? = some r) :
    D = D.take (n - 1) ++ r :: D.drop n := by
  obtain ⟨hlt, rfl⟩ := List.getElem?_eq_some_iff.mp h
  have hdrop : D.drop (n - 1) = D[n - 1] :: D.drop n := by
    rw [List.drop_eq_getElem_cons hlt]
    congr 2
    omega
  rw [← hdrop, List.take_append_drop]

/-- In a list sorted by a strict order, the rows after one of them are those it
precedes. -/
theorem mem_drop_iff {lt : α → α → Prop} (hs : D.Pairwise lt) (hasymm : ∀ x y, lt x y → ¬lt y x)
    {n : ℕ} {r : α} (hpos : 0 < n) (hr : D[n - 1]? = some r) {x : α} (hx : x ∈ D) :
    x ∈ D.drop n ↔ lt r x := by
  have hsplit := split_at hpos hr
  rw [hsplit] at hs
  obtain ⟨-, hrm, hlr⟩ := List.pairwise_append.mp hs
  obtain ⟨hafter, -⟩ := List.pairwise_cons.mp hrm
  constructor
  · exact hafter x
  · intro hlt
    rw [hsplit] at hx
    rcases List.mem_append.mp hx with hx | hx
    · exact absurd hlt (hasymm x r (hlr x hx r List.mem_cons_self))
    · rcases List.mem_cons.mp hx with rfl | hx
      · exact absurd hlt (hasymm x x hlt)
      · exact hx

/-- Filtering leaves the rows after one of them, exactly when the filter is the order. -/
theorem filter_eq_drop_iff {lt : α → α → Prop} {p : α → Bool} (hs : D.Pairwise lt)
    (hasymm : ∀ x y, lt x y → ¬lt y x) {n : ℕ} {r : α} (hpos : 0 < n) (hr : D[n - 1]? = some r) :
    D.filter p = D.drop n ↔ ∀ x ∈ D, p x = true ↔ lt r x := by
  constructor
  · intro h x hx
    rw [← mem_drop_iff hs hasymm hpos hr hx, ← h, List.mem_filter]
    exact ⟨fun hp => ⟨hx, hp⟩, fun hp => hp.2⟩
  · intro h
    have hearly : (D.take n).filter p = [] := by
      rw [List.filter_eq_nil_iff]
      intro x hx hpx
      have hxD : x ∈ D := List.mem_of_mem_take hx
      have hlate : x ∈ D.drop n := (mem_drop_iff hs hasymm hpos hr hxD).mpr ((h x hxD).mp hpx)
      exact not_mem_take_of_mem_drop (nodup_of_pairwise hs hasymm) hlate hx
    have hlate : (D.drop n).filter p = D.drop n := by
      rw [List.filter_eq_self]
      intro x hx
      have hxD : x ∈ D := List.mem_of_mem_drop hx
      exact (h x hxD).mpr ((mem_drop_iff hs hasymm hpos hr hxD).mp hx)
    calc D.filter p = (D.take n ++ D.drop n).filter p := by rw [List.take_append_drop]
      _ = D.drop n := by rw [List.filter_append, hearly, hlate, List.nil_append]

/-- **Walks over sorted rows**: nothing is lost and nothing repeated, if and only if at
every boundary the cursor accepts exactly the rows that come later in the order. -/
theorem walk_iff_of_order (hpos : 0 < limit) (hpass : ∀ d, pass d = some d)
    {lt : α → α → Prop} (hs : D.Pairwise lt) (hasymm : ∀ x y, lt x y → ¬lt y x)
    (htrans : ∀ r s x, accepts (key r) s = true → accepts (key s) x = true →
      accepts (key r) x = true) :
    Walk (pages limit (fun _ => D) (fun _ => accepts) fun _ => key) pass 0 none D ↔
      ∀ k, ∀ r ∈ D[(k + 1) * limit - 1]?, (k + 1) * limit < D.length →
        ∀ x ∈ D, accepts (key r) x = true ↔ lt r x := by
  rw [walk_iff_of_trans hpos hpass (nodup_of_pairwise hs hasymm) htrans]
  refine forall₃_congr fun k r hr => imp_congr_right fun _ => ?_
  exact filter_eq_drop_iff hs hasymm (Nat.mul_pos (Nat.succ_pos k) hpos) hr

/-- **A walk over some of the rows**: where the cursor of each row of a list accepts the rows
of the list after it and no others, the walk from a cursor that accepts the list collects it. -/
theorem walk_of_cursors (hpos : 0 < limit) (hpass : ∀ d, pass d = some d) (m : ℕ) :
    ∀ (E : List α) (k : ℕ) (c : Option κ), E.length ≤ m →
      found (fun _ => D) (fun _ => accepts) k c = E →
      (∀ i, ∀ r ∈ E[i]?, D.filter (accepts (key r)) = E.drop (i + 1)) →
      Walk (pages limit (fun _ => D) (fun _ => accepts) fun _ => key) pass k c E := by
  induction m with
  | zero =>
    intro E k c hm hfound _
    refine Walk.last ?_
    rw [pages, hfound, page_of_le _ (by omega)]
  | succ m ih =>
    intro E k c hm hfound hE
    rcases Nat.lt_or_ge limit E.length with hlt | hle
    · obtain ⟨r, hr⟩ : ∃ r, E[limit - 1]? = some r := ⟨_, List.getElem?_eq_getElem (by omega)⟩
      have hnext : D.filter (accepts (key r)) = E.drop limit := by
        rw [hE (limit - 1) r hr, Nat.sub_add_cancel hpos]
      have hpage : pages limit (fun _ => D) (fun _ => accepts) (fun _ => key) k c =
          (E.take limit, some (key r)) := by
        rw [pages, hfound, page_of_lt _ hlt, getLast?_take hpos hlt, hr]
        rfl
      have hrest := ih (E.drop limit) (k + 1) (some (key r)) (by rw [List.length_drop]; omega) hnext
        (fun i s hs => by
          rw [List.getElem?_drop] at hs
          rw [hE (limit + i) s hs, List.drop_drop, Nat.add_assoc])
      rw [← List.take_append_drop limit E]
      exact Walk.more hpage (hpass _) hrest
    · refine Walk.last ?_
      rw [pages, hfound, page_of_le _ hle]

/-- **A walk by its first page**: the rows of the page, and what is collected from its cursor
on. -/
theorem walk_of_first (hpos : 0 < limit) (hpass : ∀ d, pass d = some d) {E : List α} {r : α}
    (hr : D[limit - 1]? = some r) (hlt : limit < D.length)
    (hfound : D.filter (accepts (key r)) = E)
    (hE : ∀ i, ∀ s ∈ E[i]?, D.filter (accepts (key s)) = E.drop (i + 1)) :
    Walk (pages limit (fun _ => D) (fun _ => accepts) fun _ => key) pass 0 none
      (D.take limit ++ E) := by
  have hpage : pages limit (fun _ => D) (fun _ => accepts) (fun _ => key) 0 none =
      (D.take limit, some (key r)) := by
    rw [pages, found, page_of_lt _ hlt, getLast?_take hpos hlt, hr]
    rfl
  exact Walk.more hpage (hpass _) (walk_of_cursors hpos hpass E.length E 1 _ (Nat.le_refl _) hfound hE)

/-- Rows of which the later ones lack something that the earlier ones have. -/
theorem filter_append_filter_not {p : α → Bool} {D : List α}
    (h : D.Pairwise fun a b => p b = true → p a = true) :
    D.filter p ++ D.filter (fun x => !p x) = D := by
  induction D with
  | nil => rfl
  | cons x D ih =>
    obtain ⟨hx, hrest⟩ := List.pairwise_cons.mp h
    rcases hp : p x
    · have hnone : D.filter p = [] := by
        rw [List.filter_eq_nil_iff]
        intro y hy hpy
        rw [hx y hy hpy] at hp
        exact absurd hp (by simp)
      have ih := ih hrest
      rw [hnone, List.nil_append] at ih
      simp [hp, hnone, ih]
    · simp [hp, ih hrest]

/-- **A walk that loses the rows without a key**: where only rows with it are accepted, and they
come first and fill a page, they are what is collected. -/
theorem walk_of_keyed (hpos : 0 < limit) (hpass : ∀ d, pass d = some d) {lt : α → α → Prop}
    {p : α → Bool} (hs : D.Pairwise lt) (hasymm : ∀ x y, lt x y → ¬lt y x)
    (hp : D.Pairwise fun a b => p b = true → p a = true)
    (haccepts : ∀ r ∈ D, p r = true → ∀ x ∈ D, accepts (key r) x = true ↔ p x = true ∧ lt r x)
    (hmany : limit ≤ (D.filter p).length) :
    Walk (pages limit (fun _ => D) (fun _ => accepts) fun _ => key) pass 0 none (D.filter p) := by
  rcases Nat.lt_or_ge limit D.length with hlong | hshort
  swap
  · have hall : D.filter p = D :=
      List.filter_sublist.eq_of_length_le (Nat.le_trans hshort hmany)
    refine Walk.last ?_
    rw [pages, found, page_of_le _ hshort, hall]
  have hsplit := filter_append_filter_not hp
  have hnext : ∀ i, ∀ r ∈ (D.filter p)[i]?,
      D.filter (accepts (key r)) = (D.filter p).drop (i + 1) := by
    intro i r hr
    obtain ⟨hrD, hrp⟩ := List.mem_filter.mp (List.mem_of_getElem? hr)
    have hlater : (D.filter p).filter (accepts (key r)) = (D.filter p).drop (i + 1) := by
      refine (filter_eq_drop_iff (hs.filter _) hasymm (Nat.succ_pos i) hr).mpr ?_
      intro x hx
      obtain ⟨hxD, hxp⟩ := List.mem_filter.mp hx
      rw [haccepts r hrD hrp x hxD]
      simp [hxp]
    rw [← hlater, List.filter_filter]
    refine List.filter_congr fun x hx => ?_
    rw [Bool.eq_iff_iff, Bool.and_eq_true, haccepts r hrD hrp x hx]
    tauto
  obtain ⟨r, hr⟩ : ∃ r, (D.filter p)[limit - 1]? = some r :=
    ⟨_, List.getElem?_eq_getElem (by omega)⟩
  have hrD : D[limit - 1]? = some r := by
    rw [← hsplit, List.getElem?_append_left (by omega)]
    exact hr
  have hfirst := hnext (limit - 1) r hr
  rw [Nat.sub_add_cancel hpos] at hfirst
  have htake : D.take limit = (D.filter p).take limit := by
    conv_lhs => rw [← hsplit]
    rw [List.take_append_of_le_length hmany]
  have hwalk : Walk (pages limit (fun _ => D) (fun _ => accepts) fun _ => key) pass 0 none
      (D.take limit ++ (D.filter p).drop limit) := by
    refine walk_of_first hpos hpass hrD hlong hfirst fun i s hs => ?_
    rw [List.getElem?_drop] at hs
    rw [hnext (limit + i) s hs, List.drop_drop, Nat.add_assoc]
  rwa [htake, List.take_append_drop] at hwalk

end Fixed

/-! ### Rows in an order that changes -/

section Moving

variable {limit : ℕ} {rows : ℕ → List α} {accepts : ℕ → κ → α → Bool} {key : ℕ → α → κ}
  {pass : κ → Option κ}

/-- A row that is left over comes after the last one shown. -/
theorem sublist_of_mem_drop {D : List α} {n : ℕ} {r x : α} (hr : (D.take n).getLast? = some r)
    (hx : x ∈ D.drop n) : [r, x].Sublist D := by
  have h1 : [r].Sublist (D.take n) := List.singleton_sublist.mpr (List.mem_of_getLast? hr)
  have h2 : [x].Sublist (D.drop n) := List.singleton_sublist.mpr hx
  have h := h1.append h2
  rwa [List.take_append_drop] at h

variable (hkeep : ∀ k r x, [r, x].Sublist (rows k) → accepts (k + 1) (key k r) x = true)

include hkeep

/-- A row that is left over is found again for the next page. -/
theorem mem_found_next (hperm : ∀ i j, (rows i).Perm (rows j)) {k : ℕ} {c : Option κ} {r x : α}
    (hr : ((found rows accepts k c).take limit).getLast? = some r)
    (hx : x ∈ (found rows accepts k c).drop limit) :
    x ∈ found rows accepts (k + 1) (some (key k r)) := by
  have hsub : [r, x].Sublist (rows k) := (sublist_of_mem_drop hr hx).trans (found_sublist k c)
  refine mem_found_some.mpr ⟨?_, hkeep k r x hsub⟩
  exact (hperm k (k + 1)).mem_iff.mp (hsub.subset (by simp))

/-- A row that a page was taken from is shown there or on a later one. -/
theorem Walk.mem_of_mem_found (hpos : 0 < limit) (hpass : ∀ d, pass d = some d)
    (hperm : ∀ i j, (rows i).Perm (rows j)) {k : ℕ} {c : Option κ} {ys : List α}
    (h : Walk (pages limit rows accepts key) pass k c ys) :
    ∀ x ∈ found rows accepts k c, x ∈ ys := by
  induction h using walk_induction hpos hpass with
  | last k c hle => exact fun x hx => hx
  | more k c r zs hlt hr hw ih =>
    intro x hx
    rw [← List.take_append_drop limit (found rows accepts k c)] at hx
    rcases List.mem_append.mp hx with hx | hx
    · exact List.mem_append_left _ hx
    · exact List.mem_append_right _ (ih x (mem_found_next hkeep hperm hr hx))

/-- **Nothing is lost**: a row still to come at a boundary is found there. -/
theorem Walk.mem_found_of_mem_drop (hpos : 0 < limit) (hpass : ∀ d, pass d = some d)
    (hperm : ∀ i j, (rows i).Perm (rows j)) (hD : (rows 0).Nodup)
    (h : Walk (pages limit rows accepts key) pass 0 none (rows 0)) (k : ℕ) {r : α}
    (hr : (rows 0)[(k + 1) * limit - 1]? = some r) (hk : (k + 1) * limit < (rows 0).length) :
    ∀ x ∈ (rows 0).drop ((k + 1) * limit), x ∈ found rows accepts (k + 1) (some (key k r)) := by
  induction k generalizing r with
  | zero =>
    intro x hx
    have hl : 1 * limit = limit := Nat.one_mul limit
    simp only [Nat.zero_add, hl] at hr hk hx ⊢
    have hlast : ((found rows accepts 0 none).take limit).getLast? = some r := by
      rw [← hr]
      exact getLast?_take hpos hk
    exact mem_found_next hkeep hperm hlast hx
  | succ k ih =>
    have hmul : (k + 1 + 1) * limit = (k + 1) * limit + limit := by rw [Nat.add_mul, Nat.one_mul]
    intro x hx
    obtain ⟨s, hs, hw⟩ := h.at_boundary hpos hpass k (by omega)
    have htake := hw.take_found hpos hpass
    have hfound : x ∈ found rows accepts (k + 1) (some (key k s)) := by
      refine ih hs (by omega) x ?_
      rw [hmul, ← List.drop_drop] at hx
      exact List.mem_of_mem_drop hx
    rw [← List.take_append_drop limit (found rows accepts (k + 1) (some (key k s)))] at hfound
    rcases List.mem_append.mp hfound with hin | hout
    · -- it would have been shown on this page, and come again later
      rw [htake] at hin
      rw [hmul, ← List.drop_drop] at hx
      exact absurd hin (not_mem_take_of_mem_drop (hD.sublist (List.drop_sublist _ _)) hx)
    · refine mem_found_next hkeep hperm ?_ hout
      rw [htake, getLast?_take hpos (by rw [List.length_drop]; omega), getElem?_drop_last hpos, hr]

/-- **Walks over rows in a changing order**: the pages put together are the rows, once
each and in the order of the first page, if and only if the query resumes after every
page. -/
theorem walk_iff_of_keeps (hpos : 0 < limit) (hpass : ∀ d, pass d = some d)
    (hperm : ∀ i j, (rows i).Perm (rows j)) (hD : (rows 0).Nodup) :
    Walk (pages limit rows accepts key) pass 0 none (rows 0) ↔
      ∀ k, Resumes limit rows accepts key k := by
  constructor
  · intro h k r hr hk
    obtain ⟨r', hr', hw⟩ := h.at_boundary hpos hpass k hk
    obtain rfl := Option.some.inj (hr'.symm.trans hr)
    have hnodup : (found rows accepts (k + 1) (some (key k r'))).Nodup :=
      ((hperm 0 (k + 1)).nodup hD).sublist (found_sublist _ _)
    refine ⟨?_, hw.take_found hpos hpass⟩
    rw [List.perm_ext_iff_of_nodup hnodup (hD.sublist (List.drop_sublist _ _))]
    exact fun x => ⟨hw.mem_of_mem_found hkeep hpos hpass hperm x,
      h.mem_found_of_mem_drop hkeep hpos hpass hperm hD k hr' hk x⟩
  · exact walk_of_resumes hpos hpass

end Moving

end Keyset
