import SynergyNode.Accounts
import SynergyNode.Address
import SynergyNode.Block
import SynergyNode.Bytes
import SynergyNode.Format
import SynergyNode.Hash
import SynergyNode.Hashing.Blake3
import SynergyNode.Hashing.Keccak
import SynergyNode.Ledger
import SynergyNode.Ledger.Commit
import SynergyNode.Ledger.Rollback
import SynergyNode.Merkle
import SynergyNode.Node
import SynergyNode.Node.Error
import SynergyNode.Node.Handlers
import SynergyNode.Oracle
import SynergyNode.Peer.Address
import SynergyNode.Peer.IpAddress
import SynergyNode.Peer.Registry
import SynergyNode.Pool
import SynergyNode.Proofs.Accounts
import SynergyNode.Proofs.Arrival
import SynergyNode.Proofs.Binding
import SynergyNode.Proofs.Codec
import SynergyNode.Proofs.Format
import SynergyNode.Proofs.Latest
import SynergyNode.Proofs.Ledger.Authority
import SynergyNode.Proofs.Ledger.Commit
import SynergyNode.Proofs.Ledger.Consistency
import SynergyNode.Proofs.Ledger.History
import SynergyNode.Proofs.Ledger.PartialCommit
import SynergyNode.Proofs.Ledger.PartialRollback
import SynergyNode.Proofs.Ledger.Refusal
import SynergyNode.Proofs.Ledger.Release
import SynergyNode.Proofs.Ledger.Repetition
import SynergyNode.Proofs.Ledger.Replay
import SynergyNode.Proofs.Ledger.Restart
import SynergyNode.Proofs.Ledger.Rollback
import SynergyNode.Proofs.Ledger.RollbackWrites
import SynergyNode.Proofs.Ledger.Run
import SynergyNode.Proofs.Ledger.SchemeChange
import SynergyNode.Proofs.Ledger.Supply
import SynergyNode.Proofs.Merkle
import SynergyNode.Proofs.Pool
import SynergyNode.Proofs.Quorum
import SynergyNode.Proofs.Store
import SynergyNode.Proofs.Sync.Adoption
import SynergyNode.Proofs.Sync.Batch
import SynergyNode.Proofs.Sync.Convergence
import SynergyNode.Proofs.Sync.Fork
import SynergyNode.Proofs.Sync.Segment
import SynergyNode.Proofs.Sync.Serving
import SynergyNode.Proofs.Sync.Verdict
import SynergyNode.Proofs.Table
import SynergyNode.Proofs.Voting
import SynergyNode.Protocol
import SynergyNode.Queue
import SynergyNode.Round.NonceData
import SynergyNode.Round.Proposer
import SynergyNode.Settings
import SynergyNode.Settings.Load
import SynergyNode.Signature.Bits
import SynergyNode.Signature.Descriptor
import SynergyNode.Signature.Dilithium.Encoding
import SynergyNode.Signature.Dilithium.Params
import SynergyNode.Signature.Dilithium.Rounding
import SynergyNode.Signature.Dilithium.Sampling
import SynergyNode.Signature.Dilithium.Scheme
import SynergyNode.Signature.Falcon
import SynergyNode.Signature.Live
import SynergyNode.Signature.Ring
import SynergyNode.Signature.Scheme
import SynergyNode.Signature.Suite
import SynergyNode.Slot
import SynergyNode.Stats
import SynergyNode.Store
import SynergyNode.Surroundings
import SynergyNode.Sync.Follower
import SynergyNode.Sync.Messages
import SynergyNode.Synergy
import SynergyNode.Text.Escaped
import SynergyNode.Text.Quoted
import SynergyNode.Text.Utf8
import SynergyNode.Toml.Document
import SynergyNode.Toml.Scalar
import SynergyNode.Toml.Value
import SynergyNode.Transaction
import SynergyNode.Transport
import SynergyNode.Transport.Stream
import SynergyNode.View
import SynergyNode.View.Chain
import SynergyNode.View.Error
import SynergyNode.View.Node
import SynergyNode.View.Wire
import SynergyNode.Voting
import SynergyNode.Wallet
import SynergyNode.Wire.Codec
import SynergyNode.Wire.Frame
import SynergyNode.Wire.Message
import SynergyNode.Wire.Opcode
import SynergyNode.Wire.Topic
import SynergyNode.Words
import SynergyNode.Proofs.Ledger.Agreement
import SynergyNode.Proofs.Ledger.Resumption
import SynergyNode.Proofs.Round.Declaration
import SynergyNode.Proofs.Round.NonceData
import SynergyNode.Proofs.Round.Proposal
import SynergyNode.Proofs.Ledger.Places
import SynergyNode.Proofs.Ledger.Orderly
import SynergyNode.Proofs.Node.Messages
import SynergyNode.Proofs.Node.Places
import SynergyNode.Proofs.Node.Selection
import SynergyNode.Proofs.Node.Offences
import SynergyNode.Proofs.Node.Intake
import SynergyNode.Proofs.Round.Recording
import SynergyNode.Proofs.Peer.Registry
import SynergyNode.Proofs.Peer.Operations
import SynergyNode.Proofs.Peer.Tasks
import SynergyNode.Proofs.Peer.Standing
import SynergyNode.Proofs.Wire.Transmission
import SynergyNode.Proofs.Wire.Truncation
import SynergyNode.Proofs.Layout
import SynergyNode.Proofs.Preimage
import SynergyNode.Proofs.Wire.Order
import SynergyNode.Proofs.Pool.Bookkeeping
import SynergyNode.Proofs.Pool.Selection
import SynergyNode.Proofs.Ledger.Returning
import SynergyNode.Proofs.Tally
import SynergyNode.Proofs.Merkle.Path
import SynergyNode.Proofs.Wire.Sifting
import SynergyNode.Proofs.Node.Gossip
import SynergyNode.Proofs.Text.Utf8
import SynergyNode.Proofs.Signature.Descriptor
import SynergyNode.Proofs.Books
import SynergyNode.Proofs.Ledger.Snapshot
import SynergyNode.Proofs.Sync.Answer
import SynergyNode.Proofs.Wire.Bounds
import SynergyNode.Proofs.Peer.Bans
import SynergyNode.Proofs.Peer.Connections
import SynergyNode.Proofs.Mean
import SynergyNode.Proofs.Round.Overdraft
import SynergyNode.Proofs.Sync.Messages
import SynergyNode.Proofs.Slice
import SynergyNode.Proofs.KeyFile
