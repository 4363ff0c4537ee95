import Marketplace.Registry.Location

/-!
# The verified badge

The badge of a listing is written by one program, `Marketplace.Registry.recompute`, which reads
the claim and the licence without holding either, and writes what the rule makes of them
(`Marketplace.Registry.decideBadge`). A claim decision and an import run it in their own
transactions; the nightly re-check runs it over all listings, page by page.
-/

namespace Marketplace.Registry

open ReadCommitted

variable (atlas : Atlas)

/-! ### The rule -/

/-- `is_expired`, on a day. -/
def License.isExpired (day : ℕ) (l : License) : Bool := l.expirationDate.any fun date => date < day

/-- **`decide`**, on a day: whether a listing with this claim and this licence is verified. -/
def decideBadge (day : ℕ) (claimed : Bool) (facts : Option License) : Outcome :=
  match facts with
  | none => ⟨false, "no licence record is linked to this listing".toList⟩
  | some l =>
    let licence := "CSLB licence ".toList ++ l.licenseNo
    if l.status ≠ .active then
      ⟨false, licence ++ " is ".toList ++ l.status.asStr ++ " as of the last import".toList⟩
    else if l.isExpired day then
      ⟨false, licence ++ " expired on ".toList ++
        l.expirationDate.elim "an unknown date".toList atlas.formatDate⟩
    else if !claimed then
      ⟨false, licence ++ " is active, but nobody has claimed this listing".toList⟩
    else ⟨true, "claim approved and ".toList ++ licence ++ " was active at the last import".toList⟩

/-! ### One listing -/

/-- `facts_for_contractor`. -/
def factsForContractor (id : Uuid) : Registering (Option License) :=
  .look fun j db => (db.contractors.row j id).bind (db.licenseOf j)

/-- **`recompute`**: compute the badge of a listing, and store it. -/
def recompute (id : Uuid) : Registering Outcome := do
  let inputs ← locationInputs id
  let claimed := inputs.elim false LocationInputs.isClaimed
  let facts ← factsForContractor id
  let now ← clock
  let outcome := decideBadge atlas (today now) claimed facts
  updateListing .tx id (.verification outcome now (today now))
  pure outcome

/-! ### All of them -/

/-- Compute the badge of each of the listings. -/
def recomputeEach : List Uuid → Registering Unit
  | [] => pure ()
  | id :: ids => do
    let _ ← recompute atlas id
    recomputeEach ids

/-- The first listings after one, as process `j` sees them. -/
def contractorsAfter (after : Option Uuid) (page : ℕ) (j : ℕ) (db : Db) : List Uuid :=
  ((db.contractors.scan j fun id _ => after.all fun a => a < id).insertionSort (· ≤ ·)).take page

/-- **`recompute_all`**: the listings, page by page, each page in a transaction; at most this
many pages. -/
def recomputeAll (page : ℕ) : ℕ → Option Uuid → ℕ → Registering ℕ
  | 0, _, processed => pure processed
  | pages + 1, after, processed => do
    let ids ← Action.look (contractorsAfter after page)
    if ids.isEmpty then pure processed
    else do
      let _ ← Action.transaction .commit .rollback (recomputeEach atlas ids)
      recomputeAll page pages ids.getLast? (processed + ids.length)

end Marketplace.Registry
