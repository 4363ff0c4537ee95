import Marketplace.Auth.Confirmations
import Marketplace.Auth.DeviceCookie
import Marketplace.Auth.PasswordUpdates
import Marketplace.Auth.SignInRequests
import Marketplace.Auth.LiveTokens
import Marketplace.Auth.Guesses
import Marketplace.Auth.Liveness
import Marketplace.Auth.FederatedSignIn
import Marketplace.Auth.LockoutRequests
import Marketplace.Auth.AddressRequests
import Marketplace.Auth.Vouching
import Marketplace.Auth.Openings
import Marketplace.Mail.Worker
import Marketplace.Messaging.Blocking
import Marketplace.Messaging.PairRequests
import Marketplace.Messaging.ReadMarks
import Marketplace.Board.Choices
import Marketplace.Board.SavedSearches
import Marketplace.Alerts.Digests
import Marketplace.Search.Cursors
import Marketplace.Search.Dropped
import Marketplace.Search.Maps
import Marketplace.Searches.Cap
import Marketplace.Directory.Ranking
import Marketplace.Enrichment.Batches
import Marketplace.Enrichment.ReviewIds
import Marketplace.Enrichment.Totals
import Marketplace.Enrichment.Published
import Marketplace.Registry.Accounting
import Marketplace.Registry.ServiceAreas
import Marketplace.Registry.AreaLists
import Marketplace.Registry.PublicPoints
import Marketplace.Registry.Withdrawals
import Marketplace.Jobs.Photos
import Marketplace.Enrichment.Scoring
import Marketplace.Enrichment.Addresses
import Marketplace.Auth.KeyCache
import Marketplace.RateLimit.Windows
import Marketplace.Quality.Recompute
import Marketplace.Registry.ProfilePhotos
import Marketplace.ReadCommitted.Serial
import Marketplace.ReadCommitted.Views
import Marketplace.Registry.Contents
import Marketplace.Registry.Derivation
import Marketplace.Registry.Authors
import Marketplace.Registry.Origins
import Marketplace.Messaging.Access
import Marketplace.Jobs.Access
import Marketplace.Directory.Viewport
import Marketplace.Http.ClientIp
import Marketplace.Registry.Dates
import Marketplace.Registry.Hashing
import Marketplace.Http.Origin
import Marketplace.Directory.Suggestions
import Marketplace.Maintenance.Invisible
import Marketplace.Upsert.Batches
import Marketplace.Reference.Names
