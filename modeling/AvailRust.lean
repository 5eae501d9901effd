import AvailRust.Lib.Dialogue
import AvailRust.Lib.Scale
import AvailRust.Lib.Delimit
import AvailRust.Lib.Hex
import AvailRust.Lib.PrefixCode
import AvailRust.Lib.Paging
import AvailRust.Lib.Results
import AvailRust.Lib.Ancestry
import AvailRust.Lib.Levels
import AvailRust.Lib.Reference
import AvailRust.Lib.Positional
import AvailRust.Lib.StableSort
import AvailRust.Lib.Text
import AvailRust.Lib.Fallible
import AvailRust.Lib.Queues
import AvailRust.Lib.Systems
import AvailRust.Core.Types
import AvailRust.Core.Account
import AvailRust.Core.Extrinsic
import AvailRust.Core.ExtrinsicFormat
import AvailRust.Core.Stream
import AvailRust.Core.Header
import AvailRust.Core.Grandpa
import AvailRust.Core.HeaderNext
import AvailRust.Core.Consensus
import AvailRust.Client.Node
import AvailRust.Client.Utils
import AvailRust.Client.RetryBudget
import AvailRust.Client.Chain
import AvailRust.Client.Heads
import AvailRust.Client.Feed
import AvailRust.Client.FinalizedChain
import AvailRust.Client.Block
import AvailRust.Client.Queries
import AvailRust.Client.BlockEvents
import AvailRust.Client.Retries
import AvailRust.Client.MockClient
import AvailRust.Client.ReqwestClient
import AvailRust.Subscription.Sub
import AvailRust.Subscription.Cursor
import AvailRust.Subscription.Atomicity
import AvailRust.Subscription.Wrappers
import AvailRust.Subscription.Traversal
import AvailRust.Subscription.Forward
import AvailRust.Subscription.Backward
import AvailRust.Subscription.BestStream
import AvailRust.Subscription.Reference
import AvailRust.Subscription.Overruled
import AvailRust.Subscription.Override
import AvailRust.Subscription.Redelivery
import AvailRust.Submission.Options
import AvailRust.Submission.Submit
import AvailRust.Submission.Wallet
import AvailRust.Submission.AtMostOnce
import AvailRust.Submission.Receipt
import AvailRust.Submission.Search
import AvailRust.Submission.Window
import AvailRust.Submission.Ledger
import AvailRust.Submission.NonceSearch
import AvailRust.Submission.Reorg
import AvailRust.Submission.Mortality
import AvailRust.Submission.Exact
import AvailRust.Submission.BlockState
import AvailRust.Submission.Range
import AvailRust.Submission.Signing
import AvailRust.Submission.FollowUps
import AvailRust.Submission.ReadOnly
import AvailRust.Submission.WalletSubmit
import AvailRust.Storage.Keys
import AvailRust.Storage.State
import AvailRust.Storage.Iterator
import AvailRust.Storage.DoubleMap
import AvailRust.Storage.Injective
import AvailRust.Storage.Slices
import AvailRust.Storage.MapIterator
import AvailRust.Storage.Fetch
import AvailRust.Pallets.Basic
import AvailRust.Pallets.Utility
import AvailRust.Pallets.Vector
import AvailRust.Pallets.Proxy
import AvailRust.Pallets.Multisig
import AvailRust.Pallets.Staking
import AvailRust.Pallets.NominationPools
import AvailRust.Pallets.Events
import AvailRust.Pallets.RuntimeCall
import AvailRust.Pallets.Dispatch
import AvailRust.Pallets.DispatchError
import AvailRust.Pallets.AsMulti
import AvailRust.Pallets.Batch
import AvailRust.Pallets.Segments
import AvailRust.Pallets.Builder
import AvailRust.Pallets.RoundTrip
import AvailRust.Pallets.Acceptance
import AvailRust.Pallets.MultiAccount
import AvailRust.Client.BlockInformation
import AvailRust.Ffi.Receipts
import AvailRust.Recovery.Lookup
import AvailRust.Recovery.Map
import AvailRust.Recovery.PeerId
import AvailRust.Recovery.Owners
import AvailRust.Recovery.Program
import AvailRust.Recovery.Agreement
