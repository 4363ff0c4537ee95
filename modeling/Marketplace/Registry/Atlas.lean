import Marketplace.Directory.Contractors

/-!
# What the registry does not compute

The register of licences comes from files, is written beside reference data that no request here
changes, and is read by a geocoder; these, and the libraries that read dates, amounts and digests,
come as a `Marketplace.Registry.Atlas`.

The file also has the conditions that columns put on texts.
-/

namespace Marketplace.Registry

open Search (Point)
open Directory (Region)

/-- A row of `trades`, as far as licences are concerned. -/
structure Trade where
  id : Uuid
  cslbClassification : Option Text
  deriving DecidableEq

/-- **The surroundings**: the regions, trades and account types, which no request here writes,
the geocoder, which is a function of the address it is asked for, whenever it answers, and the
libraries. -/
structure Atlas where
  /-- `find_zcta`: the region of a ZIP code. -/
  findZcta : Text → Option Region
  /-- `all_trades_for_import`, in their order. -/
  trades : List Trade
  /-- The account is one of a contractor. -/
  contractorAccount : Uuid → Bool
  /-- Where an address is, if the provider has a match for it. -/
  locate : Text → Option Point
  /-- The error that process `i` gets for an address at a time, in place of an answer. -/
  outage : ℕ → Instant → Text → Option Text
  /-- `address_hash`. -/
  addressHash : Text → Digest
  /-- SHA-256 of some fields, each with a separator after it. -/
  fieldsHash : List Text → Digest
  /-- `NaiveDate::parse_from_str`, in a format. -/
  parseFromStr : String → Text → Option ℕ
  /-- The cents of an amount that is written with digits and points. -/
  parseAmount : Text → Option ℕ
  /-- `NaiveDate::to_string`. -/
  formatDate : ℕ → Text
  /-- `Uuid::simple`. -/
  simpleUuid : Uuid → Text
  /-- `Uuid::to_string`. -/
  formatUuid : Uuid → Text
  /-- A list of texts, as it is formatted for an error. -/
  formatTexts : List Text → Text
  /-- `cm_storage::normalise`, as far as a listing is concerned: the width and the height. -/
  normalise : List UInt8 → Except AppError (ℕ × ℕ)

/-- An atlas with one region and one trade, in which every account is one of a contractor, and
every address is at the same point. -/
def Atlas.plain : Atlas where
  findZcta code := if code = "90210".toList then some ⟨1, ⟨34, -118⟩, none⟩ else none
  trades := [⟨1, some "C-10".toList⟩]
  contractorAccount _ := true
  locate _ := some ⟨34, -118⟩
  outage _ _ _ := none
  addressHash address := address
  fieldsHash fields := fields.flatten
  parseFromStr _ _ := none
  parseAmount _ := none
  formatDate _ := []
  simpleUuid _ := []
  formatUuid _ := []
  formatTexts _ := []
  normalise _ := .ok (1, 1)

/-- The day of a time. -/
def today (now : Instant) : ℕ := now / 86400

/-! ### What columns take -/

/-- A text that a column takes has no zero byte. -/
def isStorable (t : Text) : Bool := t.all fun c => c ≠ Char.ofNat 0

/-- `btrim(t) = ''`. -/
def isBlank (t : Text) : Bool := t.all fun c => c = ' '

/-- `length(t) <= n`, of a text that may be absent. -/
def isWithin (n : ℕ) (t : Option Text) : Bool := t.all fun t => decide (t.length ≤ n)

end Marketplace.Registry
