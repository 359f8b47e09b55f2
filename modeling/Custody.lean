import Custody.Asset.Basic
import Custody.Asset.Material
import Custody.Asset.Property
import Custody.Asset.Reporter
import Custody.Bisection
import Custody.Digest.Blake3
import Custody.Digest.Stream
import Custody.Engine.Executor
import Custody.Engine.Recording
import Custody.Engine.Replay
import Custody.Engine.Snapshot
import Custody.Fault
import Custody.Identifier
import Custody.Journal.Basic
import Custody.Journal.Summary
import Custody.Json.Form
import Custody.Json.Parser
import Custody.Json.Printer
import Custody.Json.Token
import Custody.Json.Value
import Custody.Label
import Custody.Ledger.Audit
import Custody.Ledger.Dispatch
import Custody.Ledger.Inventory
import Custody.Ledger.Lifecycle
import Custody.Ledger.OfferBook
import Custody.Ledger.Offers
import Custody.Ledger.Properties
import Custody.Ledger.Quantities
import Custody.Ledger.Registry
import Custody.Ledger.Reporters
import Custody.Limits
import Custody.Message.Basic
import Custody.Message.Check
import Custody.Message.Form
import Custody.Offer.Basic
import Custody.Offer.Terms
import Custody.Proofs.Digest.Stream
import Custody.Proofs.Engine.Divergence
import Custody.Proofs.Engine.Executor
import Custody.Proofs.Engine.Hash
import Custody.Proofs.Engine.Recording
import Custody.Proofs.Engine.Replay
import Custody.Proofs.Engine.Reporting
import Custody.Proofs.Engine.Restoring
import Custody.Proofs.Engine.Snapshot
import Custody.Proofs.Journal.Counts
import Custody.Proofs.Journal.Digest
import Custody.Proofs.Journal.Window
import Custody.Proofs.Json.Codec
import Custody.Proofs.Json.Quantity
import Custody.Proofs.Ledger.Accounting
import Custody.Proofs.Ledger.Answering
import Custody.Proofs.Ledger.Authority
import Custody.Proofs.Ledger.Batching
import Custody.Proofs.Ledger.Canonicity
import Custody.Proofs.Ledger.Commuting
import Custody.Proofs.Ledger.Finality
import Custody.Proofs.Ledger.Findings
import Custody.Proofs.Ledger.Integrity
import Custody.Proofs.Ledger.Lineage
import Custody.Proofs.Ledger.Listings
import Custody.Proofs.Ledger.Parallel
import Custody.Proofs.Ledger.Rebuilding
import Custody.Proofs.Ledger.Registry
import Custody.Proofs.Ledger.Regularity
import Custody.Proofs.Ledger.Restraint
import Custody.Proofs.Ledger.Settled
import Custody.Proofs.Ledger.Settling
import Custody.Proofs.Ledger.Undoing
import Custody.Proofs.Records.Applying
import Custody.Proofs.Records.Batching
import Custody.Proofs.Records.Legible
import Custody.Proofs.Records.Regular
import Custody.Proofs.Reporters
import Custody.Proofs.Store.Layout
import Custody.Proofs.Store.Nesting
import Custody.SortedMap
import Custody.SortedMap.Lemmas
import Custody.Store.Key
import Custody.Store.Layered
import Custody.Store.Transaction
import Custody.Text.Decimal
import Custody.Text.Hex
import Custody.Text.Utf8
