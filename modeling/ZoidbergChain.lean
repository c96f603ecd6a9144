import ZoidbergChain.Python.Text
import ZoidbergChain.Python.Numeral
import ZoidbergChain.Python.Plain
import ZoidbergChain.Python.Value
import ZoidbergChain.Python.Number
import ZoidbergChain.Wallet
import ZoidbergChain.Host
import ZoidbergChain.Protocol
import ZoidbergChain.NativeTransfer
import ZoidbergChain.NativeTransferStable
import ZoidbergChain.Python.Mapping
import ZoidbergChain.NativeValidation
import ZoidbergChain.Python.Control
import ZoidbergChain.NativeLedger
import ZoidbergChain.Block
import ZoidbergChain.BlockValidation
import ZoidbergChain.ChainReplay
import ZoidbergChain.PeerSync
import ZoidbergChain.ChainHeights
import ZoidbergChain.ReviewerPolicy
import ZoidbergChain.ReviewerEligibility
import ZoidbergChain.ReviewerHistory
import ZoidbergChain.ReviewerScan
import ZoidbergChain.Python.Json
import ZoidbergChain.Consensus.Quorum
import ZoidbergChain.Consensus.Locking
import ZoidbergChain.Tendermint.Model
import ZoidbergChain.Tendermint.Slots
import ZoidbergChain.Tendermint.Evidence
import ZoidbergChain.Tendermint.Agreement
import ZoidbergChain.Python.Table
import ZoidbergChain.ReviewJournal.Model
import ZoidbergChain.ReviewJournal.Closing
import ZoidbergChain.ReviewJournal.Reviews
import ZoidbergChain.Finality.Service
import ZoidbergChain.Finality.Votes
import ZoidbergChain.Finality.Accountability
import ZoidbergChain.Python.Order
import ZoidbergChain.Finality.Durable
import ZoidbergChain.Python.JsonReader
import ZoidbergChain.Python.JsonWidth
import ZoidbergChain.CanonicalV3.Primitives
import ZoidbergChain.CanonicalV3.RoundTrip
import ZoidbergChain.Bft.Wire
import ZoidbergChain.Bft.Encoding
import ZoidbergChain.Bft.Verifier
import ZoidbergChain.PagedReview.Model
import ZoidbergChain.PagedReview.Index
import ZoidbergChain.PagedReview.Freeze
import ZoidbergChain.PagedReview.Accounting
import ZoidbergChain.Python.Bytes
import ZoidbergChain.PagedReview.Wire
import ZoidbergChain.PagedReview.WireCodec
import ZoidbergChain.Python.Base64
import ZoidbergChain.CanonicalV3.Widths
import ZoidbergChain.CanonicalV3.Fields
import ZoidbergChain.CanonicalV3.Media
import ZoidbergChain.CanonicalV3.Transactions
import ZoidbergChain.CanonicalV3.Evidence
import ZoidbergChain.CanonicalV3.Block
import ZoidbergChain.CanonicalV3.KeyOrder
import ZoidbergChain.CanonicalV3.BlockSize
import ZoidbergChain.CanonicalV3.Writing
import ZoidbergChain.CanonicalV3.Issuance
import ZoidbergChain.CanonicalV3.IssuedCertificate
import ZoidbergChain.Python.Sha256
import ZoidbergChain.CanonicalV3.IssuedBlock
import ZoidbergChain.CanonicalV3.Construction
import ZoidbergChain.CanonicalV3.BlockRecord
import ZoidbergChain.Python.Datetime
import ZoidbergChain.Outbox.Model
import ZoidbergChain.Outbox.Laws
import ZoidbergChain.Outbox.Delivery
import ZoidbergChain.NativeLifecycle.Model
import ZoidbergChain.NativeLifecycle.Audit
import ZoidbergChain.NativeLifecycle.Saves
import ZoidbergChain.ReorgMerge
import ZoidbergChain.Scan.Windows
import ZoidbergChain.Reputation.Model
import ZoidbergChain.Reputation.Ledger
import ZoidbergChain.Reputation.Order
import ZoidbergChain.Reputation.Delivery
import ZoidbergChain.PeerMessage.Envelope
import ZoidbergChain.PeerMessage.Replay
import ZoidbergChain.PeerMessage.Verify
import ZoidbergChain.Originality.Records
import ZoidbergChain.Originality.Saves
import ZoidbergChain.Originality.History
import ZoidbergChain.Scan.Collect
import ZoidbergChain.Scan.Firsts
import ZoidbergChain.Moderation.Signed
import ZoidbergChain.Moderation.Dispute
import ZoidbergChain.MintQueue.Model
import ZoidbergChain.MintQueue.Selection
import ZoidbergChain.VoteQuota.Model
import ZoidbergChain.VoteQuota.Laws
import ZoidbergChain.Scan.NextFree
import ZoidbergChain.LedgerViews
import ZoidbergChain.Scan.Walk
import ZoidbergChain.BranchDelta
import ZoidbergChain.Python.FloatText
import ZoidbergChain.LegacyTransaction
import ZoidbergChain.Scan.Groups
import ZoidbergChain.Rewards.Model
import ZoidbergChain.Rewards.Selection
import ZoidbergChain.NativeAdmission.Model
import ZoidbergChain.NativeAdmission.Reservations
import ZoidbergChain.NativeAdmission.Laws
import ZoidbergChain.NativeMempool.Model
import ZoidbergChain.NativeMempool.Selection
import ZoidbergChain.Scan.Prefixes
import ZoidbergChain.Scan.Stride
import ZoidbergChain.Codec.Bits
import ZoidbergChain.Codec.Tables
import ZoidbergChain.Codec.TableLaws
import ZoidbergChain.Codec.ReadTable
import ZoidbergChain.Codec.ReverseBits
import ZoidbergChain.PagedReview.Preimages
import ZoidbergChain.DomainSeparation
import ZoidbergChain.NativeAmount
import ZoidbergChain.Bft.Conflicts
import ZoidbergChain.DisputeCache
import ZoidbergChain.ForkChoice
import ZoidbergChain.CanonicalV3.MediaRoundTrip
import ZoidbergChain.NativeRestore
import ZoidbergChain.Python.JsonText
import ZoidbergChain.Genesis.PreScan
import ZoidbergChain.Genesis.Structure
import ZoidbergChain.Genesis.Transparent
import ZoidbergChain.CanonicalV3.Finality
import ZoidbergChain.Consensus.Lineage
import ZoidbergChain.CanonicalV3.FinalityQuorum
import ZoidbergChain.CanonicalV3.Store
import ZoidbergChain.CanonicalV3.StoreLaws
import ZoidbergChain.CanonicalV3.StoreRuns
import ZoidbergChain.CanonicalV3.StoreSafety
import ZoidbergChain.Consensus.HashChain
import ZoidbergChain.Python.Program
import ZoidbergChain.Bft.Reducer
import ZoidbergChain.Bft.Journal
import ZoidbergChain.Bft.Signer
import ZoidbergChain.Bft.JournalLaws
import ZoidbergChain.Bft.PlanCases
import ZoidbergChain.Bft.SignerSafety
