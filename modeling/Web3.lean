import Web3.Foundations.Outcome
import Web3.Foundations.Words
import Web3.Foundations.Lists
import Web3.Foundations.HeadTail
import Web3.Abi.Types
import Web3.Abi.Values
import Web3.Abi.Encode
import Web3.Abi.Decode
import Web3.Abi.Spec
import Web3.Abi.EncodeMeaning
import Web3.Abi.DecodeMeaning
import Web3.Abi.RoundTrip
import Web3.Abi.DecodeBounds
import Web3.Foundations.Linked
import Web3.Foundations.SortedMap
import Web3.Foundations.Heap
import Web3.Foundations.Cursors
import Web3.Foundations.Overlay
import Web3.Foundations.Windows
import Web3.Storage.MemDB
import Web3.Storage.SkipList
import Web3.Storage.SkipListPut
import Web3.Storage.Table
import Web3.Primitives
import Web3.Storage.Layers
import Web3.Storage.MemIter
import Web3.Storage.TableRuns
import Web3.Storage.JoinIter
import Web3.Storage.Codec
import Web3.Storage.World
import Web3.Storage.LayerRuns
import Web3.Storage.WorldView
import Web3.Storage.WorldFrame
import Web3.Foundations.Checkpoints
import Web3.Storage.StateDB
import Web3.Storage.Snapshots
import Web3.Storage.Records
import Web3.Storage.Accounts
import Web3.Storage.SelfDestruct
import Web3.Evm.Frames
import Web3.Evm.Transactions
import Web3.Executor.StateTransition
import Web3.Executor.GasPayment
import Web3.Tracker.Blocks
import Web3.Tracker.ChainInvariant
import Web3.Tracker.Filters
import Web3.Tracker.LogStore
import Web3.Tracker.Reorgs
import Web3.Tracker.Start
import Web3.Tracker.Sync
import Web3.Tracker.Ledger
import Web3.Tracker.HandOver
import Web3.Tracker.Slices
import Web3.Tracker.Restart
import Web3.Tracker.Failures
import Web3.Foundations.Programs
import Web3.Vm.Words
import Web3.Vm.Machine
import Web3.Vm.Contract
import Web3.Vm.State
import Web3.Vm.Calls
import Web3.Vm.Instructions
import Web3.Vm.GasTable
import Web3.Vm.JumpTable
import Web3.Vm.Interpreter
import Web3.Vm.Steady
import Web3.Vm.Charges
import Web3.Vm.GasBounds
import Web3.Vm.Tables
import Web3.Vm.Fuel
import Web3.Vm.MapDB
import Web3.Vm.Termination
import Web3.Vm.Static
import Web3.Vm.ReturnData
import Web3.Executor.GasCounters
import Web3.Json.Values
import Web3.Json.Logs
import Web3.Storage.Commits
import Web3.Vm.Relations
import Web3.Vm.StorageDB
import Web3.Vm.Refunds
import Web3.Executor.RemoteDB
import Web3.Foundations.Forests
import Web3.Foundations.Hex
import Web3.Foundations.Rlp
import Web3.Foundations.Transitions
import Web3.Json.Filters
import Web3.Jsonrpc.Stream
import Web3.Jsonrpc.Calls
import Web3.Jsonrpc.Subscriptions
import Web3.Storage.Merge
import Web3.Store.Entries
import Web3.Store.Bolt
import Web3.Store.Postgres
import Web3.Tracker.Ancestors
import Web3.Tracker.Batches
import Web3.Tracker.FastTrack
import Web3.Tracker.FirstSync
import Web3.Vm.CallGas
import Web3.Vm.Jumps
import Web3.Vm.MemoryCost
import Web3.Wallet.Signer
import Web3.Tracker.Removals
import Web3.Tracker.FilterIds
import Web3.Tracker.PreSync
import Web3.Abi.Acceptance
import Web3.Abi.Reencode
import Web3.Abi.DecodeWork
import Web3.Abi.Calls
import Web3.Abi.Topics
import Web3.Foundations.Scanning
import Web3.Abi.Lexer
import Web3.Abi.TypeParser
import Web3.Abi.TypeText
import Web3.Abi.TypeReading
import Web3.Abi.TypeGrammar
import Web3.Abi.TypeTwins
import Web3.Abi.TypeHints
import Web3.Contract.Topics
import Web3.Executor.Reverts
import Web3.Evm.Console
import Web3.Json.Readers
import Web3.Json.Transactions
import Web3.Json.Blocks
import Web3.Json.Fields
import Web3.Json.Receipts
import Web3.Json.Strictness
import Web3.Json.Receivers
import Web3.Wallet.HashCache
import Web3.Wallet.Binding
import Web3.Codec.ZeroCopy
import Web3.Codec.Records
import Web3.Codec.Canonical
import Web3.Utils.FixNum
