import CatalogClient.Config.Source
import CatalogClient.Pipeline.Journal
import CatalogClient.Pipeline.Script
import CatalogClient.Proofs.Bulk.Success
import CatalogClient.Proofs.Credential.Custody
import CatalogClient.Proofs.Pipeline.Budget
import CatalogClient.Proofs.Pipeline.Pause
import CatalogClient.Proofs.Pipeline.Quota
import CatalogClient.Proofs.Pipeline.Resend
import CatalogClient.Resource
import CatalogClient.Text.Hex
import CatalogClient.Walk
import CatalogClient.WriteAck
import CatalogClient.Proofs.Credential.Freshness
import CatalogClient.Proofs.Bulk.Batches
import CatalogClient.Proofs.Bulk.Order
import CatalogClient.Proofs.Pipeline.Served
import CatalogClient.Proofs.Bulk.Batching
import CatalogClient.Proofs.Pipeline.Alike
import CatalogClient.Proofs.Client.Lockstep
import CatalogClient.Proofs.Bulk.Keyed
import CatalogClient.Proofs.Decimal.Digits
import CatalogClient.Proofs.Url.Form
import CatalogClient.Proofs.Paging.ByHand
import CatalogClient.Proofs.Paging.Counted
import CatalogClient.Proofs.Paging.Search
import CatalogClient.Proofs.Bulk.Modes
import CatalogClient.Proofs.Url.Escape
import CatalogClient.Proofs.Url.Punycode
import CatalogClient.Proofs.Client.Assembly
import CatalogClient.Proofs.Client.Deadline
import CatalogClient.Proofs.Resource.Keys
import CatalogClient.Proofs.Limiter.Lineup
import CatalogClient.Proofs.Credential.Abandon
import CatalogClient.Proofs.Search.RoundTrip
import CatalogClient.Proofs.Search.Forms
import CatalogClient.Proofs.Bulk.Attribution
import CatalogClient.Proofs.Paging.Links
import CatalogClient.Proofs.Client.Pairs
import CatalogClient.Proofs.Limiter.Reports
import CatalogClient.Proofs.Retry.Override
import CatalogClient.Proofs.Pipeline.Spacing
import CatalogClient.Proofs.Credential.Exchanges
import CatalogClient.Proofs.Search.Context
import CatalogClient.Proofs.Search.Grouping
import CatalogClient.Proofs.Search.CallOrder
import CatalogClient.Proofs.Bulk.StatusText
import CatalogClient.Proofs.Bulk.Framing
import CatalogClient.Proofs.Paging.Envelope
import CatalogClient.Proofs.Paging.Advance
import CatalogClient.Proofs.Limiter.Clock
import CatalogClient.Proofs.Retry.Seconds
import CatalogClient.Proofs.Retry.Complaints
import CatalogClient.Proofs.Config.Sources
import CatalogClient.Proofs.Config.Precedence
import CatalogClient.Proofs.Bulk.Upserts
import CatalogClient.Proofs.Retry.Growth
import CatalogClient.Proofs.Retry.Spread
import CatalogClient.Proofs.Search.Raw
