import Marketplace.Registry.Import
import Marketplace.Registry.Profiles

/-!
# The requests of the registry

Imports, the geocoding worker and the nightly re-check run beside one another, and beside what
claimants, owners and administrators ask for.

A claim and a profile edit are written in one transaction, any statement of which may fail; which
one does is given with the request, and so is a step that fails once the transaction is over.

The trades that a claimant reports are written by hand: no program here does it.
-/

namespace Marketplace.Registry

open ReadCommitted

variable (atlas : Atlas)

/-- What a process may be asked to do. -/
inductive Request
  /-- Import a file. -/
  | importFile (options : ImportOptions)
  /-- Derive the trades of the register again. -/
  | rederive
  /-- Make a pass over the geocoding queue. -/
  | runOnce (config : WorkerConfig)
  /-- Check every badge again, up to this many pages. -/
  | recomputeAll (page pages : ℕ)
  /-- Open a claim. -/
  | openClaim (contractorId userId : Uuid) (method : ClaimMethod) (evidence : Text)
  /-- Withdraw a claim. -/
  | withdrawClaim (id userId : Uuid)
  /-- Decide a claim. -/
  | decideClaim (id : Uuid) (approve : Bool) (adminId : Uuid) (note : Option Text)
  /-- Edit a profile. -/
  | updateProfile (caller id : Uuid) (body : UpdateProfileRequest)
  /-- Set the photograph of a listing. -/
  | setPhoto (caller id key : Uuid) (bytes : List UInt8)
  /-- Remove the photograph of a listing. -/
  | removePhoto (caller id : Uuid)
  /-- Say where a listing serves. -/
  | putServiceAreas (caller id : Uuid) (inputs : List ServiceAreaInput)
  /-- Write, or delete, a trade that a claimant reports. -/
  | reportTrade (contractorId tradeId : Uuid) (held : Bool)
  deriving DecidableEq

/-- **A request**, with its identifier, the number of the step of its transaction that fails, if
one does, and the number of the step after it that does. -/
structure Call where
  request : Request
  requestId : Option Uuid := none
  fault : Option ℕ := none
  later : Option ℕ := none
  deriving DecidableEq

/-- What is answered. -/
inductive Response
  /-- It is done. -/
  | done
  /-- The file is imported. -/
  | imported (counts : RunCounts)
  /-- So many trades were added, and so many removed. -/
  | rederived (added removed : ℕ)
  /-- The pass is over. -/
  | passed (stats : Stats)
  /-- So many badges were checked. -/
  | checked (processed : ℕ)
  /-- The claim, as it is now. -/
  | claimed (claim : Claim)
  /-- The claim is decided. -/
  | decided (decision : Decision)
  /-- The listing, as it is now. -/
  | edited (c : Contractor)
  /-- The photograph is set. -/
  | photographed (photo : ProfilePhoto)
  /-- The regions that were not taken. -/
  | serving (unknown : List Text)
  deriving DecidableEq

/-- A trade that a claimant reports is written, or deleted. -/
def reportTrade (contractorId tradeId : Uuid) (held : Bool) : Registering Bool :=
  let key : TradeKey := ⟨contractorId, tradeId, .selfReported⟩
  Action.query (.trade .auto (if held then .add key else .drop key))

/-- The program of a request. -/
def serve (call : Call) : Registering Response :=
  match call.request with
  | .importFile options => do
    let counts ← runImport atlas options
    pure (.imported counts)
  | .rederive => do
    let counts ← rederiveCslbTrades atlas
    pure (.rederived counts.1 counts.2)
  | .runOnce config => do
    let stats ← runOnce atlas config
    pure (.passed stats)
  | .recomputeAll page pages => do
    let processed ← recomputeAll atlas page pages none 0
    pure (.checked processed)
  | .openClaim contractorId userId method evidence => do
    let claim ← openClaim atlas call.fault contractorId userId method evidence call.requestId
    pure (.claimed claim)
  | .withdrawClaim id userId => do
    withdrawClaim call.fault id userId call.requestId
    pure .done
  | .decideClaim id approve adminId note => do
    let decision ← decideClaim atlas call.fault call.later id approve adminId note call.requestId
    pure (.decided decision)
  | .updateProfile caller id body => do
    let c ← updateProfile atlas call.fault call.later caller id body
    pure (.edited c)
  | .setPhoto caller id key bytes => do
    let photo ← setPhoto atlas call.fault caller id key bytes
    pure (.photographed photo)
  | .removePhoto caller id => do
    removePhoto call.fault caller id
    pure .done
  | .putServiceAreas caller id inputs => do
    let unknown ← putServiceAreas atlas caller id inputs
    pure (.serving unknown)
  | .reportTrade contractorId tradeId held => do
    let _ ← reportTrade contractorId tradeId held
    pure .done

/-- **The registry.** -/
def registry : System ℕ Db Call (Except AppError Response) Query where
  run := Query.run atlas
  rollback := .rollback
  tick := fun n db => { db with clock := db.clock + n }
  program := fun _ call => (serve atlas call).run

end Marketplace.Registry
