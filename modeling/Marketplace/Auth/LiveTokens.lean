import Marketplace.ReadCommitted.Unique
import Marketplace.Auth.Footprint

/-!
# At most one live token for each purpose

Issuing a token first consumes the open ones of the same account and purpose, and then
inserts. No index backs the rule, and no row is there to be held by two transactions that
issue at the same time; so the rule is kept by the runs in which a token is inserted once
every open token of its kind is consumed by the same transaction, and no other open
transaction has inserted one (`Marketplace.issuesInTurn`).
-/

namespace Marketplace

open ReadCommitted

variable {env : Env} {i : ℕ} {db db' : Db} {β : Type}

/-- The account and the purpose of a token that has not been spent. -/
def AuthToken.opened (t : AuthToken) : Option (Uuid × Purpose) :=
  if t.consumedAt = none then some (t.userId, t.purpose) else none

namespace AuthTokens

/-- The token a statement inserts. -/
def Query.inserts : Query β → Option AuthToken
  | .insert _ token => some token
  | _ => none

end AuthTokens

end Marketplace
