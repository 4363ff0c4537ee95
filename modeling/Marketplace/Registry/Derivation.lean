import Mathlib.Data.Finset.Card
import Marketplace.Registry.BadRows

/-!
# The trades of the register are derived

A listing has the trades of the register that its licence gives it. They are derived in two ways:
an import writes those of one listing, when its licence has changed, and a statement of its own
writes those of all listings. If no two trades have one code, both ways say the same
(`Marketplace.Registry.mem_tradesOf`, `Marketplace.Registry.mem_derivedTrades`), so that what one has
written the other leaves (`Marketplace.Registry.Contents.Derived`), whatever else has been asked for in
between.
-/

namespace Marketplace.Registry

open ReadCommitted

variable {atlas : Atlas} {i : ℕ} {w : Option Contents} {C C' : Contents}

/-! ### Codes -/

/-- **No two trades have one code**, once they are normalised. -/
def Atlas.DistinctCodes (atlas : Atlas) : Prop :=
  ∀ trade ∈ atlas.trades, ∀ other ∈ atlas.trades, ∀ c d, trade.cslbClassification = some c →
    other.cslbClassification = some d → normaliseClassification c = normaliseClassification d →
      trade = other

/-- The classification is one of a trade. -/
def Trade.HasCode (trade : Trade) (code : Text) : Prop :=
  ∃ c, trade.cslbClassification = some c ∧ normaliseClassification c = normaliseClassification code

/-- **The trades that some classifications give.** -/
def GivesTrade (atlas : Atlas) (classifications : List Text) (tradeId : Uuid) : Prop :=
  ∃ code ∈ classifications, ∃ trade ∈ atlas.trades, trade.HasCode code ∧ trade.id = tradeId

/-- Where no key is there twice, what is looked up is what is there. -/
theorem lookup_eq_some_of_unique {α β : Type} [BEq α] [LawfulBEq α] {l : List (α × β)}
    (hl : ∀ p ∈ l, ∀ q ∈ l, p.1 = q.1 → p = q) {k : α} {v : β} :
    l.lookup k = some v ↔ (k, v) ∈ l := by
  constructor
  · intro h
    obtain ⟨before, after, rfl, -⟩ := List.lookup_eq_some_iff.mp h
    exact List.mem_append_right before List.mem_cons_self
  · intro h
    obtain ⟨v', hv'⟩ := Option.isSome_iff_exists.mp
      (List.lookup_isSome_iff.mpr ⟨(k, v), h, by rw [beq_iff_eq]⟩)
    obtain ⟨before, after, rfl, -⟩ := List.lookup_eq_some_iff.mp hv'
    have hmem : (k, v') ∈ before ++ (k, v') :: after :=
      List.mem_append_right before List.mem_cons_self
    have hsame := hl (k, v') hmem (k, v) h rfl
    rw [hv', (Prod.mk.inj hsame).2]

theorem tradeFor_eq_some (hcodes : atlas.DistinctCodes) {code : Text} {tradeId : Uuid} :
    tradeFor atlas (normaliseClassification code) = some tradeId ↔
      ∃ trade ∈ atlas.trades, trade.HasCode code ∧ trade.id = tradeId := by
  have hmem : ∀ p : Text × Uuid, p ∈ (atlas.trades.filterMap fun trade =>
      trade.cslbClassification.map fun c => (normaliseClassification c, trade.id)).reverse ↔
        ∃ trade ∈ atlas.trades, ∃ c, trade.cslbClassification = some c ∧
          (normaliseClassification c, trade.id) = p := by
    intro p
    simp only [List.mem_reverse, List.mem_filterMap, Option.map_eq_some_iff]
  rw [tradeFor, lookup_eq_some_of_unique, hmem]
  · constructor
    · rintro ⟨trade, htrade, c, hc, heq⟩
      exact ⟨trade, htrade, ⟨c, hc, (Prod.mk.inj heq).1⟩, (Prod.mk.inj heq).2⟩
    · rintro ⟨trade, htrade, ⟨c, hc, hcode⟩, rfl⟩
      exact ⟨trade, htrade, c, hc, by rw [hcode]⟩
  · intro p hp q hq hsame
    obtain ⟨trade, htrade, c, hc, rfl⟩ := (hmem p).mp hp
    obtain ⟨other, hother, d, hd, rfl⟩ := (hmem q).mp hq
    obtain rfl := hcodes trade htrade other hother c d hc hd hsame
    rw [show normaliseClassification c = normaliseClassification d from hsame]

/-- **The trades that an import writes** are those that the classifications give. -/
theorem mem_tradesOf (hcodes : atlas.DistinctCodes) {classifications : List Text} {tradeId : Uuid} :
    tradeId ∈ tradesOf atlas classifications ↔ GivesTrade atlas classifications tradeId := by
  rw [tradesOf, List.mem_filterMap]
  simp only [tradeFor_eq_some hcodes]
  rfl

/-! ### What the licences give -/

/-- The classifications of the licence of a listing. -/
def Contents.classificationsOf (C : Contents) (id : Uuid) : List Text :=
  ((C.licenseIdOf id).bind C.licenses).elim [] fun l => l.classifications

/-- **The licence of a listing gives it this trade.** -/
def Contents.Derives (atlas : Atlas) (C : Contents) (key : TradeKey) : Prop :=
  key.source = .cslb ∧ GivesTrade atlas (C.classificationsOf key.contractorId) key.tradeId

/-- **The trades that the statement derives** are those that the licences give. -/
theorem mem_derivedTrades {db : Db} (h : db.In i w C) {key : TradeKey} :
    key ∈ derivedTrades atlas i db ↔ C.Derives atlas key := by
  have hlicense : ∀ id, (db.contractors.row i id).bind (db.licenseOf i) =
      (C.licenseIdOf id).bind C.licenses := by
    intro id
    have hof : db.licenseOf i = C.licenseOf := by
      funext c
      exact congrArg c.licenseRecordId.bind h.licenses_eq
    have hrow : db.contractors.row i id = C.contractors id := congrFun h.contractors_eq id
    rw [hrow, hof, Contents.licenseIdOf, Option.bind_assoc]
    rfl
  have hcode : ∀ trade : Trade, ∀ code, (trade.cslbClassification.any fun c =>
      normaliseClassification c = normaliseClassification code) = true ↔ trade.HasCode code := by
    intro trade code
    rw [Option.any_eq_true, Trade.HasCode]
    simp only [decide_eq_true_eq]
  rw [derivedTrades, List.mem_dedup, List.mem_flatMap]
  simp only [hlicense]
  constructor
  · rintro ⟨id, -, hkey⟩
    rw [Contents.Derives, Contents.classificationsOf]
    cases hl : (C.licenseIdOf id).bind C.licenses with
    | none =>
      rw [hl] at hkey
      cases hkey
    | some l =>
      rw [hl] at hkey
      simp only [Option.elim_some, List.mem_flatMap, List.mem_map, List.mem_filter, hcode] at hkey
      obtain ⟨code, hmem, trade, ⟨htrade, hhas⟩, rfl⟩ := hkey
      rw [hl]
      exact ⟨rfl, code, hmem, trade, htrade, hhas, rfl⟩
  · rintro ⟨hsource, code, hmem, trade, htrade, hhas, hid⟩
    refine ⟨key.contractorId, ?_, ?_⟩
    · -- a listing that has a licence is there
      refine Table.mem_scan.mpr ?_
      have hthere : C.contractors key.contractorId ≠ none := by
        intro hnone
        rw [Contents.classificationsOf, Contents.licenseIdOf, hnone] at hmem
        cases hmem
      obtain ⟨c, hc⟩ := Option.ne_none_iff_exists'.mp hthere
      exact ⟨c, (congrFun h.contractors_eq _).trans hc, rfl⟩
    · rw [Contents.classificationsOf] at hmem
      cases hl : (C.licenseIdOf key.contractorId).bind C.licenses with
      | none =>
        rw [hl] at hmem
        cases hmem
      | some l =>
        rw [hl] at hmem
        simp only [Option.elim_some, List.mem_flatMap, List.mem_map, List.mem_filter, hcode]
        refine ⟨code, hmem, trade, ⟨htrade, hhas⟩, ?_⟩
        rw [hid, ← hsource]

/-! ### Deriving them again -/

/-- Contents with some trades more. -/
def Contents.adding (C : Contents) (keys : List TradeKey) : Contents :=
  { C with trades := fun key => if key ∈ keys then some () else C.trades key }

/-- Contents without some trades. -/
def Contents.dropping (C : Contents) (keys : List TradeKey) : Contents :=
  { C with trades := fun key => if key ∈ keys then none else C.trades key }

theorem Contents.adding_concat (C : Contents) (keys : List TradeKey) (key : TradeKey) :
    C.adding (keys ++ [key]) =
      { C.adding keys with trades := Function.update (C.adding keys).trades key (some ()) } := by
  refine Contents.ext rfl rfl rfl rfl (funext fun k => ?_) rfl rfl
  show (if k ∈ keys ++ [key] then some () else C.trades k) =
    Function.update (C.adding keys).trades key (some ()) k
  rw [Function.update_apply]
  show _ = if k = key then some () else if k ∈ keys then some () else C.trades k
  by_cases hk : k = key <;> by_cases hkeys : k ∈ keys <;> simp [hk, hkeys]

theorem Contents.dropping_concat (C : Contents) (keys : List TradeKey) (key : TradeKey) :
    C.dropping (keys ++ [key]) =
      { C.dropping keys with trades := Function.update (C.dropping keys).trades key none } := by
  refine Contents.ext rfl rfl rfl rfl (funext fun k => ?_) rfl rfl
  show (if k ∈ keys ++ [key] then none else C.trades k) =
    Function.update (C.dropping keys).trades key none k
  rw [Function.update_apply]
  show _ = if k = key then none else if k ∈ keys then none else C.trades k
  by_cases hk : k = key <;> by_cases hkeys : k ∈ keys <;> simp [hk, hkeys]

theorem Contents.adding_nil (C : Contents) : C.adding [] = C :=
  Contents.ext rfl rfl rfl rfl (funext fun _ => rfl) rfl rfl

theorem Contents.dropping_nil (C : Contents) : C.dropping [] = C :=
  Contents.ext rfl rfl rfl rfl (funext fun _ => rfl) rfl rfl

/-- **Adding trades** answers how many are new. -/
theorem addTrades_yields {P : Contents} {keys : List TradeKey} (hkeys : keys.Nodup) :
    Yields atlas i (some P) C (addTrades keys) fun r C' =>
      r = .ok (keys.countP fun key => (C.trades key).isNone) ∧ C' = C.adding keys := by
  refine Yields.countsEach (fun rest n C' => ∃ done, done ++ rest = keys ∧ C' = C.adding done ∧
    n = done.countP fun key => (C.trades key).isNone) ⟨[], rfl, C.adding_nil.symm, rfl⟩ ?_ ?_
  · rintro key rest n _ db ⟨done, rfl, rfl, rfl⟩ hdb
    obtain ⟨db', hq, hdb'⟩ := hdb.addTrade key
    have hnew : (C.adding done).trades key = C.trades key :=
      if_neg fun hdone => List.disjoint_of_nodup_append hkeys hdone List.mem_cons_self
    rw [← Contents.adding_concat] at hdb'
    refine ⟨_, db', _, hq, hdb', done ++ [key], by rw [List.append_assoc]; rfl, rfl, ?_⟩
    rw [hnew, List.countP_append, List.countP_singleton]
    split <;> rfl
  · rintro n _ ⟨done, hdone, rfl, rfl⟩
    rw [List.append_nil] at hdone
    rw [hdone]
    exact ⟨rfl, rfl⟩

/-- **Deleting trades** answers how many there were. -/
theorem dropTrades_yields {P : Contents} {keys : List TradeKey} (hkeys : keys.Nodup) :
    Yields atlas i (some P) C (dropTrades keys) fun r C' =>
      r = .ok (keys.countP fun key => (C.trades key).isSome) ∧ C' = C.dropping keys := by
  refine Yields.countsEach (fun rest n C' => ∃ done, done ++ rest = keys ∧ C' = C.dropping done ∧
    n = done.countP fun key => (C.trades key).isSome) ⟨[], rfl, C.dropping_nil.symm, rfl⟩ ?_ ?_
  · rintro key rest n _ db ⟨done, rfl, rfl, rfl⟩ hdb
    obtain ⟨db', hq, hdb'⟩ := hdb.dropTrade key
    have hleft : (C.dropping done).trades key = C.trades key :=
      if_neg fun hdone => List.disjoint_of_nodup_append hkeys hdone List.mem_cons_self
    rw [← Contents.dropping_concat] at hdb'
    refine ⟨_, db', _, hq, hdb', done ++ [key], by rw [List.append_assoc]; rfl, rfl, ?_⟩
    rw [hleft, List.countP_append, List.countP_singleton]
    split <;> rfl
  · rintro n _ ⟨done, hdone, rfl, rfl⟩
    rw [List.append_nil] at hdone
    rw [hdone]
    exact ⟨rfl, rfl⟩

/-- **What deriving the trades again does.** -/
structure Contents.Rederives (atlas : Atlas) (C C' : Contents) : Prop where
  derived : ∀ key, key.source = .cslb → (C'.trades key = some () ↔ C.Derives atlas key)
  kept : ∀ key, key.source ≠ .cslb → C'.trades key = C.trades key
  rest : C' = { C with trades := C'.trades }

/-- The trades that deriving them again adds. -/
def Contents.Misses (atlas : Atlas) (C : Contents) (key : TradeKey) : Prop :=
  C.Derives atlas key ∧ C.trades key = none

/-- The trades that deriving them again removes. -/
def Contents.Outdates (atlas : Atlas) (C : Contents) (key : TradeKey) : Prop :=
  key.source = .cslb ∧ C.trades key = some () ∧ ¬ C.Derives atlas key

/-- What is derived does not depend on the trades that are there. -/
theorem Contents.derives_adding {keys : List TradeKey} {key : TradeKey} :
    (C.adding keys).Derives atlas key ↔ C.Derives atlas key := Iff.rfl

/-- The trades that the second statement finds to be stale. -/
theorem mem_stale {db : Db} (h : db.In i w C) {key : TradeKey} :
    key ∈ (db.trades.scan i fun key _ =>
        key.source = .cslb && !(derivedTrades atlas i db).contains key) ↔ C.Outdates atlas key := by
  rw [Table.mem_scan, Contents.Outdates]
  have hrow : db.trades.row i key = C.trades key := congrFun h.trades_eq key
  simp only [hrow, Bool.and_eq_true, decide_eq_true_eq, Bool.not_eq_true', List.contains_iff_mem,
    ← Bool.not_eq_true, mem_derivedTrades h]
  constructor
  · rintro ⟨⟨⟩, hkey, hsource, hnot⟩
    exact ⟨hsource, hkey, hnot⟩
  · rintro ⟨hsource, hkey, hnot⟩
    exact ⟨(), hkey, hsource, hnot⟩

/-- **Deriving the trades again**, whatever there is: the answer is how many trades are added, and how
many removed. -/
theorem rederiveCslbTrades_yields :
    Yields atlas i none C (rederiveCslbTrades atlas) fun r C' => C.Rederives atlas C' ∧
      ∃ fresh stale : Finset TradeKey, (∀ key, key ∈ fresh ↔ C.Misses atlas key) ∧
        (∀ key, key ∈ stale ↔ C.Outdates atlas key) ∧ r = .ok (fresh.card, stale.card) := by
  refine Yields.andThen (Yields.transaction (Yields.look fun db hdb => ?_))
  have hmem := fun key => @mem_derivedTrades atlas i _ C db hdb key
  have hnodup : (derivedTrades atlas i db).Nodup := List.nodup_dedup _
  generalize derivedTrades atlas i db = derived at hmem hnodup
  refine (addTrades_yields hnodup).mono ?_
  rintro r C₁ ⟨rfl, rfl⟩
  refine ⟨fun added hadded => ⟨added, rfl, ?_⟩, fun e he => nomatch he⟩
  cases hadded
  refine Yields.andThen (Yields.transaction (Yields.look fun db₁ hdb₁ => ?_))
  have hstale := fun key => @mem_stale atlas i _ _ db₁ hdb₁ key
  have hnodup' : (db₁.trades.scan i fun key _ =>
      key.source = .cslb && !(derivedTrades atlas i db₁).contains key).Nodup :=
    db₁.trades.nodup.filter _
  generalize (db₁.trades.scan i fun key _ =>
    key.source = .cslb && !(derivedTrades atlas i db₁).contains key) = stale at hstale hnodup'
  -- What is stale was there before, since nothing that is not derived has been added.
  have hold : ∀ key, key ∈ stale ↔ C.Outdates atlas key := by
    intro key
    rw [hstale, Contents.Outdates, Contents.Outdates, Contents.derives_adding]
    refine and_congr_right fun _ => and_congr_left fun hnot => ?_
    rw [show (C.adding derived).trades key = C.trades key from if_neg fun h => hnot ((hmem key).mp h)]
  refine (dropTrades_yields hnodup').mono ?_
  rintro r C₂ ⟨rfl, rfl⟩
  refine ⟨fun removed hremoved => ⟨removed, rfl, Yields.pure ⟨⟨fun key hsource => ?_, fun key hsource => ?_,
    rfl⟩, ?_⟩⟩, fun e he => nomatch he⟩
  · show (if key ∈ stale then none else if key ∈ derived then some () else C.trades key) = some () ↔ _
    constructor
    · intro htrade
      by_contra hnot
      rw [if_neg fun h => hnot ((hmem key).mp h)] at htrade
      split at htrade
      · cases htrade
      · rename_i hfine
        exact hfine ((hold key).mpr ⟨hsource, htrade, hnot⟩)
    · intro hderives
      rw [if_neg fun h => ((hold key).mp h).2.2 hderives, if_pos ((hmem key).mpr hderives)]
  · show (if key ∈ stale then none else if key ∈ derived then some () else C.trades key) = _
    rw [if_neg fun h => hsource ((hold key).mp h).1, if_neg fun h => hsource ((hmem key).mp h).1]
  · cases hremoved
    refine ⟨(derived.filter fun key => (C.trades key).isNone).toFinset, stale.toFinset,
      fun key => ?_, fun key => ?_, ?_⟩
    · rw [List.mem_toFinset, List.mem_filter, hmem, Option.isNone_iff_eq_none, Contents.Misses]
    · rw [List.mem_toFinset, hold]
    · have hall : stale.countP (fun key => ((C.adding derived).trades key).isSome) = stale.length := by
        refine List.countP_eq_length.mpr fun key hkey => ?_
        rw [((hstale key).mp hkey).2.1]
        rfl
      rw [hall, List.toFinset_card_of_nodup (hnodup.filter _), List.toFinset_card_of_nodup hnodup',
        List.countP_eq_length_filter]

/-- **The trades of the register are those that the licences give.** -/
def Contents.Derived (atlas : Atlas) (C : Contents) : Prop :=
  ∀ key, key.source = .cslb → (C.trades key = some () ↔ C.Derives atlas key)

theorem Contents.Rederives.derives_iff (h : C.Rederives atlas C') {key : TradeKey} :
    C'.Derives atlas key ↔ C.Derives atlas key := by
  rw [h.rest]
  exact Iff.rfl

/-- Once they have been derived again, they are those. -/
theorem Contents.Rederives.derived' (h : C.Rederives atlas C') : C'.Derived atlas := fun key hkey => by
  rw [h.derives_iff]
  exact h.derived key hkey

/-- What is derived already is left as it is. -/
theorem Contents.Rederives.eq_of_derived (h : C.Rederives atlas C') (hC : C.Derived atlas) :
    C' = C := by
  have htrades : C'.trades = C.trades := by
    funext key
    by_cases hkey : key.source = .cslb
    · exact Option.ext fun _ => (h.derived key hkey).trans (hC key hkey).symm
    · exact h.kept key hkey
  rw [h.rest, htrades]

/-- **Deriving what is derived already** adds nothing, removes nothing and changes nothing. -/
theorem rederive_derived_yields (hC : C.Derived atlas) :
    Yields atlas i none C (rederiveCslbTrades atlas) fun r C' => r = .ok (0, 0) ∧ C' = C := by
  refine rederiveCslbTrades_yields.mono ?_
  rintro r C' ⟨hC', fresh, stale, hfresh, hstale, rfl⟩
  have hnone : fresh = ∅ := by
    refine Finset.eq_empty_of_forall_notMem fun key hkey => ?_
    obtain ⟨hderives, hmissing⟩ := (hfresh key).mp hkey
    rw [(hC key hderives.1).mpr hderives] at hmissing
    cases hmissing
  have hnone' : stale = ∅ := by
    refine Finset.eq_empty_of_forall_notMem fun key hkey => ?_
    obtain ⟨hsource, htrade, hnot⟩ := (hstale key).mp hkey
    exact hnot ((hC key hsource).mp htrade)
  rw [hnone, hnone']
  exact ⟨rfl, hC'.eq_of_derived hC⟩

/-! ### Importing keeps them so -/

section Imports

variable {runId : Uuid} {record : LicenseRecord} {o : UpsertOutcome}

/-- What is stored of a licence that has changed has the classifications of its record. -/
theorem Contents.Upserts.classifications {stored : StoredLicense}
    (h : C.Upserts runId record (.ok stored) C') (hnew : stored.outcome ≠ .unchanged) :
    ∃ l, C'.licenses = Function.update C.licenses stored.id (some l) ∧
      l.classifications = record.classifications ∧ C'.contractors = C.contractors ∧
      C'.trades = C.trades := by
  cases h with
  | unchanged => exact absurd rfl hnew
  | @updated id l l' now hl hno hhash hl' =>
    refine ⟨l', rfl, ?_, rfl, rfl⟩
    rw [(License.update_eq hl').1]
    rfl
  | inserted => exact ⟨_, rfl, rfl, rfl, rfl⟩

/-- The listing of a licence is one of it, and the others are of the licences that they were of. -/
theorem Contents.Lists.licenseIdOf {facts : SourceFacts} {u : UpsertResult}
    (h : C.Lists facts (.ok u) C') :
    C'.licenseIdOf = Function.update C.licenseIdOf u.id (some facts.licenseRecordId) ∧
      C'.trades = C.trades := by
  cases h with
  | @created id hnone hslug hid hchecks =>
    refine ⟨funext fun k => ?_, rfl⟩
    rw [Function.update_apply]
    show ((Function.update C.contractors id (some facts.row)) k).bind _ = _
    rw [Function.update_apply]
    split <;> rfl
  | @refreshed id c hc hlicense htakes =>
    refine ⟨funext fun k => ?_, rfl⟩
    rw [Function.update_apply]
    show ((Function.update C.contractors id (some (c.refreshed facts))) k).bind _ = _
    rw [Function.update_apply]
    split
    · exact hlicense
    · rfl

theorem Contents.Places.trades_eq {u : UpsertResult} (h : C.Places atlas u C') :
    C'.trades = C.trades := by
  cases h with
  | still => rfl
  | moved _ hrelocates => cases hrelocates <;> exact change_trades

/-- Licences that are seen again give what they gave. -/
theorem Contents.SameButSeen.classificationsOf_eq (h : C.SameButSeen C') :
    C'.classificationsOf = C.classificationsOf := by
  funext k
  rw [classificationsOf, classificationsOf, licenseIdOf, licenseIdOf, h.contractors]
  cases (C.contractors k).bind Contractor.licenseRecordId with
  | none => rfl
  | some id =>
    have hrel := h.licenses id
    revert hrel
    rw [Option.bind_some, Option.bind_some]
    generalize C.licenses id = l, C'.licenses id = l'
    rintro (hsame | _)
    · exact congrArg LicenseRecord.classifications hsame.1
    · rfl

/-- **What an import of a licence that has changed writes**: the trades of its listing, and nothing
of the others. -/
theorem Contents.Imports.listing (hC : C.Lawful) (h : C.Imports atlas runId record (.ok o) C')
    (hnew : o ≠ .unchanged) :
    ∃ id, C'.classificationsOf id = record.classifications ∧
      (∀ k, k ≠ id → C'.classificationsOf k = C.classificationsOf k) ∧
      C'.trades = (C.setTrades id (tradesOf atlas record.classifications)).trades := by
  cases h with
  | unchanged => exact absurd rfl hnew
  | @projected stored u C₁ C₂ C₃ now hstored hnew hlisted hplaced =>
    obtain ⟨l, hlicenses, hl, hcontractors, htrades⟩ := hstored.classifications hnew
    obtain ⟨hids, htrades₂⟩ := hlisted.licenseIdOf
    have hlicenses' : (C₃.recheck atlas u.id now).licenses = C₁.licenses := by
      rw [Contents.recheck, Contents.change_licenses, hplaced.sameRegister.licenses]
      exact hlisted.sameRegister.licenses
    have hids' : (C₃.recheck atlas u.id now).licenseIdOf =
        Function.update C.licenseIdOf u.id (some stored.id) := by
      have hsame : C₁.licenseIdOf = C.licenseIdOf := by
        funext k
        rw [Contents.licenseIdOf, Contents.licenseIdOf, hcontractors]
      have hchange : (C₃.recheck atlas u.id now).licenseIdOf = C₃.licenseIdOf :=
        Contents.licenseIdOf_change fun _ => rfl
      rw [hchange, hplaced.licenseIdOf_eq, ← hsame]
      exact hids
    have hlawful : C₂.Lawful := hlisted.lawful (hstored.lawful hC) (by
      show C₁.licenses stored.id ≠ none
      rw [hlicenses, Function.update_self]
      exact Option.some_ne_none l)
    refine ⟨u.id, ?_, fun k hk => ?_, ?_⟩
    · rw [Contents.classificationsOf, hids', hlicenses', Function.update_self, Option.bind_some,
        hlicenses, Function.update_self]
      exact hl
    · rw [Contents.classificationsOf, Contents.classificationsOf, hids', hlicenses',
        Function.update_of_ne hk]
      cases hid : C.licenseIdOf k with
      | none => rfl
      | some id =>
        -- no other listing is of the licence that is stored
        have hne : id ≠ stored.id := by
          rintro rfl
          refine hk (hlawful.listed k u.id stored.id ?_ ?_)
          · rw [hids, Function.update_of_ne hk, Contents.licenseIdOf, hcontractors]
            exact hid
          · rw [hids, Function.update_self]
            rfl
        rw [Option.bind_some, Option.bind_some, hlicenses, Function.update_of_ne hne]
    · rw [Contents.recheck, Contents.change_trades, hplaced.trades_eq]
      simp only [Contents.setTrades, htrades₂, htrades]

/-- **The trades that an import writes** are those that the licence, as it is then stored, gives. -/
theorem Contents.Imports.writes (hcodes : atlas.DistinctCodes) (hC : C.Lawful)
    (h : C.Imports atlas runId record (.ok o) C') (hnew : o ≠ .unchanged) :
    ∃ id, (∀ key, key.source = .cslb → key.contractorId = id →
        (C'.trades key = some () ↔ C'.Derives atlas key)) ∧
      ∀ key, key.source = .cslb → key.contractorId ≠ id →
        C'.trades key = C.trades key ∧ (C'.Derives atlas key ↔ C.Derives atlas key) := by
  obtain ⟨id, hid, hothers, htrades⟩ := h.listing hC hnew
  refine ⟨id, fun key hsource hkey => ?_, fun key hsource hkey => ⟨?_, ?_⟩⟩
  · have htrade : C'.trades key =
        if key.tradeId ∈ tradesOf atlas record.classifications then some () else none := by
      rw [htrades]
      exact if_pos ⟨hkey, hsource⟩
    rw [htrade, Contents.Derives, hkey, hid, ← mem_tradesOf hcodes]
    split <;> simp_all
  · rw [htrades]
    exact if_neg fun h => hkey h.1
  · rw [Contents.Derives, Contents.Derives, hothers _ hkey]

/-- **Contents that the keys of the schema allow, with the trades that the licences give.** -/
structure Contents.Projected (atlas : Atlas) (C : Contents) : Prop where
  lawful : C.Lawful
  derived : C.Derived atlas

theorem Contents.Imports.projects (hcodes : atlas.DistinctCodes) (hC : C.Projected atlas)
    (h : C.Imports atlas runId record (.ok o) C') : C'.Projected atlas := by
  refine ⟨h.lawful hC.lawful, fun key hsource => ?_⟩
  by_cases hnew : o = .unchanged
  · obtain rfl := hnew
    have hsame := h.sameButSeen.2
    rw [hsame.trades, Contents.Derives, hsame.classificationsOf_eq]
    exact hC.derived key hsource
  · obtain ⟨id, hown, hothers⟩ := h.writes hcodes hC.lawful hnew
    by_cases hkey : key.contractorId = id
    · exact hown key hsource hkey
    · rw [(hothers key hsource hkey).1, (hothers key hsource hkey).2]
      exact hC.derived key hsource

theorem Contents.ImportsAll.projects (hcodes : atlas.DistinctCodes) {records : List LicenseRecord}
    {os : List UpsertOutcome} (h : Contents.ImportsAll atlas runId records os C C')
    (hC : C.Projected atlas) : C'.Projected atlas := by
  induction h with
  | nil => exact hC
  | cons hrecord _ ih => exact ih (hrecord.projects hcodes hC)

/-- The runs are none of it. -/
theorem Contents.Projected.setRun (hC : C.Projected atlas) (id : Uuid) (run : ImportRun) :
    (C.setRun id run).Projected atlas :=
  ⟨hC.lawful.of_same rfl rfl, hC.derived⟩

/-- **Importing a file** keeps the trades of the register those that the licences give, even when it
fails. -/
theorem Contents.RunsImport.projects (hcodes : atlas.DistinctCodes) (hC : C.Projected atlas)
    {options : ImportOptions} {r : Except AppError RunCounts} (h : C.RunsImport atlas options r C') :
    C'.Projected atlas := by
  cases h with
  | refused => exact hC
  | @finished columns runId _ C₁ now hbegins hid hrows =>
    refine Contents.Projected.setRun ?_ _ _
    have hstart := hC.setRun runId options.run
    cases r with
    | ok counts =>
      obtain ⟨os, hall, -⟩ := hrows.ok counts rfl
      exact hall.projects hcodes hstart
    | error e =>
      obtain ⟨-, before, after, os, -, hall⟩ := hrows.error e rfl
      exact hall.projects hcodes hstart

end Imports

/-! ### What else is asked for -/

/-- The query writes neither licences, nor which licence a listing is of, nor a trade of the
register. -/
def Query.sparesTrades {β : Type} : Query β → Prop
  | .license _ _ | .listing _ (.insert _) => False
  | .trade _ (.add key) | .trade _ (.drop key) => key.source ≠ .cslb
  | _ => True

/-- The licences, the listings' licences and the trades of the register are the same. -/
structure Contents.SameTrades (C C' : Contents) : Prop where
  licenses : C'.licenses = C.licenses
  licenseIdOf : C'.licenseIdOf = C.licenseIdOf
  trades : ∀ key, key.source = .cslb → C'.trades key = C.trades key

theorem Contents.SameTrades.projects (h : C.SameTrades C') (hC : C.Projected atlas) :
    C'.Projected atlas := by
  refine ⟨hC.lawful.of_same h.licenses h.licenseIdOf, fun key hsource => ?_⟩
  have hsame : C'.classificationsOf = C.classificationsOf := by
    funext k
    rw [Contents.classificationsOf, Contents.classificationsOf, h.licenses, h.licenseIdOf]
  rw [h.trades key hsource, Contents.Derives, hsame]
  exact hC.derived key hsource

/-- What is written over a listing that is there leaves it the licence that it is of. -/
theorem ListingStatement.licenseRecordId_eq {β : Type} {m : Mode} {q : ListingStatement β} {k : Uuid}
    {o : Option Contractor} {c' : Contractor} (hq : (Query.listing m q).sparesTrades)
    (h : q.writes k o c') : ∃ c, o = some c ∧ c'.licenseRecordId = c.licenseRecordId := by
  cases q with
  | insert => exact hq.elim
  | update id change =>
    obtain ⟨-, -, c, hc, rfl⟩ := h
    exact ⟨c, hc, by cases change <;> rfl⟩
  | attach id userId now =>
    obtain ⟨-, c, hc, -, rfl⟩ := h
    exact ⟨c, hc, rfl⟩

theorem Query.sameTrades {β : Type} {q : Query β} {s s' : Db} {b : β} (hq : q.sparesTrades)
    (hrun : q.run atlas i s = some (b, s')) (hmode : q.mode ≠ none) :
    (s.seen i).SameTrades (s'.seen i) := by
  cases q with
  | commit | rollback => exact absurd rfl hmode
  | license => exact hq.elim
  | listing m q =>
    obtain ⟨⟨b', t⟩, ht, he⟩ := Option.map_eq_some_iff.mp hrun
    cases he
    refine ⟨rfl, funext fun k => ?_, fun _ _ => rfl⟩
    show (t.seen i k).bind _ = (s.contractors.seen i k).bind _
    rcases (ListingStatement.written ht).seen with hsame | ⟨m', l, c', ⟨-, hwrites⟩, hseen⟩
    · rw [hsame]
    · obtain ⟨c, hc, hlicense⟩ := ListingStatement.licenseRecordId_eq hq hwrites
      rw [hseen, Function.update_apply]
      split
      · rename_i hk
        rw [hk, hc]
        exact hlicense
      · rfl
  | trade m q =>
    obtain ⟨⟨b', t⟩, ht, he⟩ := Option.map_eq_some_iff.mp hrun
    cases he
    refine ⟨rfl, rfl, fun key hsource => ?_⟩
    cases q with
    | add key' => exact Table.seen_of_modify ht fun h => hq (h ▸ hsource)
    | drop key' => exact Table.seen_of_remove ht fun h => hq (h ▸ hsource)
  | addVersion | importRun | area | job | claim | grantRole | recordCheck | record =>
    obtain ⟨⟨b', t⟩, ht, he⟩ := Option.map_eq_some_iff.mp hrun
    cases he
    exact ⟨rfl, rfl, fun _ _ => rfl⟩

/-- The request may write a trade of the register. -/
def Request.writesTrades : Request → Bool
  | .importFile options => !options.dryRun
  | .rederive => true
  | _ => false

/-- **Every other request spares the trades of the register.** -/
theorem spares_serve {call : Call} (h : call.request.writesTrades = false) :
    (serve atlas call).run.Each fun {_} q => q.sparesTrades := by
  have hbadge : AllowsBadge fun {_} q => q.sparesTrades := ⟨fun _ _ _ _ => trivial⟩
  have hlocation : AllowsLocation fun {_} q => q.sparesTrades := ⟨fun _ _ _ => trivial⟩
  have hpass : AllowsPass fun {_} q => q.sparesTrades :=
    { hlocation with
      commit := trivial
      rollback := trivial
      job := fun _ _ => trivial
      precisePoint := fun _ _ => trivial }
  have hclaim : AllowsClaim fun {_} q => q.sparesTrades :=
    { hbadge with
      insert := fun _ => trivial
      decide := fun _ _ _ _ _ => trivial
      attach := fun _ _ _ => trivial
      grantRole := fun _ _ _ => trivial
      recordCheck := fun _ => trivial
      record := fun _ => trivial }
  have hdone {α : Type} {p : Registering α} {f : α → Response}
      (hp : p.run.Each fun {_} q => q.sparesTrades) :
      (p >>= fun a => pure (f a)).run.Each fun {_} q => q.sparesTrades :=
    Action.each_andThen hp fun _ => trivial
  obtain ⟨request, requestId, fault, later⟩ := call
  cases request with
  | importFile options =>
    have hdry : options.dryRun = true := by simpa [Request.writesTrades] using h
    exact hdone (each_runImport_dry hdry fun _ => trivial)
  | rederive => cases h
  | runOnce config => exact hdone (each_runOnce hpass)
  | recomputeAll page pages => exact hdone (each_recomputeAll trivial trivial hbadge)
  | openClaim contractorId userId method evidence =>
    exact hdone (each_inTransaction trivial trivial (each_openRow hclaim))
  | withdrawClaim id userId =>
    exact hdone (each_inTransaction trivial trivial
      (each_withdrawRow (fun _ => trivial) fun _ => trivial))
  | decideClaim id approve adminId note =>
    refine hdone (Action.each_andThen (each_inTransaction trivial trivial (each_decideRow hclaim))
      fun outcome => Action.each_failAt ?_ later)
    intro decided
    cases decided <;> trivial
  | updateProfile caller id body =>
    exact hdone (each_updateProfile hlocation trivial trivial (fun _ => trivial) fun _ _ _ => trivial)
  | setPhoto caller id key bytes => exact hdone (each_setPhoto fun _ => trivial)
  | removePhoto caller id => exact hdone (each_removePhoto fun _ => trivial)
  | putServiceAreas caller id inputs =>
    exact hdone (each_putServiceAreas trivial trivial (fun _ => trivial) (fun _ => trivial)
      fun _ => trivial)
  | reportTrade contractorId tradeId held =>
    refine hdone (p := reportTrade contractorId tradeId held) ⟨?_, fun _ => trivial⟩
    cases held <;> exact nofun

/-! ### One request after the other -/

/-- **A request keeps the trades of the register** those that the licences give, whatever it is. -/
theorem projected_of_runs (hcodes : atlas.DistinctCodes) {Cond : Proviso ℕ Db Query} {call : Call}
    {s s' : Db} {r : Except AppError Response}
    (hrun : (serve atlas call).run.Runs (registry atlas) Cond i s r s')
    (hs : s.Quiet ∧ s.published.Projected atlas) : s'.Quiet ∧ s'.published.Projected atlas := by
  cases hwrites : call.request.writesTrades with
  | false =>
    exact keeps_of_runs hrun (closes_serve call) (spares_serve hwrites) (Contents.Projected atlas)
      (fun q s b s' hq _ hrun hmode => (Query.sameTrades hq hrun hmode).projects) hs.1 hs.2
  | true =>
    have hyields : Yields atlas i none s.published (serve atlas call) fun _ C' =>
        C'.Projected atlas := by
      obtain ⟨request, requestId, fault, later⟩ := call
      cases request with
      | importFile options =>
        have hdry : options.dryRun = false := by simpa [Request.writesTrades] using hwrites
        refine Yields.seq ((runImport_yields hdry).mono fun r C' h => ?_)
        exact ⟨fun counts _ => Yields.pure (h.projects hcodes hs.2), fun e _ => h.projects hcodes hs.2⟩
      | rederive =>
        refine Yields.andThen (rederiveCslbTrades_yields.mono ?_)
        rintro r C' ⟨hC', fresh, stale, -, -, rfl⟩
        rw [hC'.eq_of_derived hs.2.derived]
        exact ⟨_, rfl, Yields.pure hs.2⟩
      | runOnce | recomputeAll | openClaim | withdrawClaim | decideClaim | updateProfile | setPhoto
      | removePhoto | putServiceAreas | reportTrade => cases hwrites
    obtain ⟨C', hC', hprojected⟩ := hyields.of_runs hrun ⟨hs.1, rfl⟩
    rw [← hC'.published] at hprojected
    exact ⟨hC'.quiet, hprojected⟩

/-- **In every state that requests reach which are served one after the other**, the trades of the
register are those that the licences give, if no two trades have one code; deriving them again then
adds nothing, removes nothing and changes nothing. -/
theorem trades_derived (hcodes : atlas.DistinctCodes)
    {c : Config ℕ Db Call (Except AppError Response) Query}
    (h : Serial (registry atlas) anyQuery (.initial {}) c) :
    c.db.published.Derived atlas ∧ ∀ i, Yields atlas i none c.db.published (rederiveCslbTrades atlas)
      fun r C' => r = .ok (0, 0) ∧ C' = c.db.published := by
  have hquiet : Db.Quiet {} :=
    ⟨fun _ => rfl, fun _ => rfl, fun _ => rfl, fun _ => rfl, fun _ => rfl, fun _ => rfl, fun _ => rfl,
      fun _ => rfl, fun _ => rfl, fun _ => rfl, fun _ => rfl⟩
  have hempty : (Db.published {}).Projected atlas := by
    refine ⟨⟨?_, ?_, ?_⟩, fun key hsource => iff_of_false (Option.some_ne_none ()).symm ?_⟩
    · intro k k' l l' hk
      cases hk
    · intro k k' id hk
      cases hk
    · intro k id hk
      cases hk
    · rintro ⟨-, code, hcode, -⟩
      cases hcode
  have hend := h.invariant (fun s => s.Quiet ∧ s.published.Projected atlas)
    (fun i call r s s' hrun => projected_of_runs hcodes hrun) (fun s n hs => ⟨hs.1.admits.tick n, hs.2⟩)
    ⟨hquiet, hempty⟩
  exact ⟨hend.2.derived, fun i => rederive_derived_yields hend.2.derived⟩

/-- A licence with one classification. -/
def electrician : ImportOptions where
  source := .cslbMasterList
  file := ⟨"register.csv".toList, [], registerHeaders ++ ["Classifications".toList],
    [some ["1".toList, "Smith".toList, "CLEAR".toList, "c10".toList]]⟩

/-- The trade of a licence that has been imported. -/
theorem trades_derived_electrician : ∃ c,
    Serial (registry .plain) anyQuery (.initial {}) c ∧
      c.db.published.trades ⟨0, 1, .cslb⟩ = some () ∧ c.db.published.Derived .plain ∧
      Yields .plain 1 none c.db.published (rederiveCslbTrades .plain)
        fun r C' => r = .ok (0, 0) ∧ C' = c.db.published := by
  have hcodes : Atlas.DistinctCodes .plain := by
    intro trade htrade other hother c d _ _ _
    rw [List.mem_singleton.mp htrade, List.mem_singleton.mp hother]
  obtain ⟨c, hc, htrade⟩ := Serial.exists_serve (registry .plain) 0
    { request := .importFile electrician } {}
    (fun db => (db.published.trades ⟨0, 1, .cslb⟩).isSome) (by decide +kernel)
  have hderived := trades_derived hcodes hc
  exact ⟨c, hc, Option.eq_some_of_isSome htrade, hderived.1, hderived.2 1⟩

/-- **Deriving the trades again heals them**, whatever has been written: the trades of the register
are then those that the licences give, the others are left as they are, and doing it twice is doing
it once. -/
theorem rederive_heals (atlas : Atlas) (i : ℕ) (C : Contents) :
    Yields atlas i none C (rederiveCslbTrades atlas) fun r C' => C.Rederives atlas C' ∧
      (∃ fresh stale : Finset TradeKey, (∀ key, key ∈ fresh ↔ C.Misses atlas key) ∧
        (∀ key, key ∈ stale ↔ C.Outdates atlas key) ∧ r = .ok (fresh.card, stale.card)) ∧
      Yields atlas i none C' (rederiveCslbTrades atlas) fun r' C'' => r' = .ok (0, 0) ∧ C'' = C' :=
  rederiveCslbTrades_yields.mono fun _ _ h => ⟨h.1, h.2, rederive_derived_yields h.1.derived'⟩

end Marketplace.Registry
