import DaoLedger.Json.Reader
import DaoLedger.Json.Float
import DaoLedger.Json.Printer
import DaoLedger.Chain.Json
import DaoLedger.Governance.Cycle
import DaoLedger.Ledger.Store
import DaoLedger.Classify.Block
import DaoLedger.Crypto.Hash
import DaoLedger.Crypto.SealedBox
import DaoLedger.Governance.VoteList
import DaoLedger.Text.Amount
import DaoLedger.Wire.Frame
import DaoLedger.Text.Quoted
import DaoLedger.Toml.Reader
import DaoLedger.Toml.Printer
import DaoLedger.Node.Config
import DaoLedger.Command.Arguments
import DaoLedger.Command.Help
import DaoLedger.Command.Run
import DaoLedger.Governance.VoteFile
import DaoLedger.Main
import DaoLedger.Node.FullNode
import DaoLedger.Node.LiteNode
import DaoLedger.Node.Shutdown
import DaoLedger.Rehearsal.Calling
import DaoLedger.Rehearsal.Folder
import DaoLedger.Rehearsal.Full
import DaoLedger.Rehearsal.Lite
import DaoLedger.Rehearsal.Serving
import DaoLedger.Toml.Json
import DaoLedger.Proofs.Coins
import DaoLedger.Proofs.Stored
import DaoLedger.Proofs.Indices
import DaoLedger.Proofs.Indexed
import DaoLedger.Proofs.Agreement
import DaoLedger.Proofs.Classification
import DaoLedger.Proofs.Applying
import DaoLedger.Proofs.Reordering
import DaoLedger.Proofs.Covering
import DaoLedger.Proofs.Replay
import DaoLedger.Proofs.Circulation
import DaoLedger.Proofs.Conservation
import DaoLedger.Proofs.History
import DaoLedger.Proofs.Nodes
import DaoLedger.Proofs.Following
import DaoLedger.Proofs.Unwinding
import DaoLedger.Proofs.Refusal
import DaoLedger.Proofs.Consumption
import DaoLedger.Proofs.Grammar
import DaoLedger.Proofs.Layouts
import DaoLedger.Proofs.Frames
import DaoLedger.Proofs.Tiling
import DaoLedger.Proofs.Coherence
import DaoLedger.Proofs.ParamChanges
import DaoLedger.Proofs.Decay
import DaoLedger.Proofs.MeritStake
import DaoLedger.Proofs.Issuing
import DaoLedger.Proofs.Channels
import DaoLedger.Proofs.Answering
import DaoLedger.Proofs.Registering
import DaoLedger.Proofs.Founding
import DaoLedger.Proofs.Revealing
import DaoLedger.Proofs.Recognition
import DaoLedger.Proofs.CoveredPrefix
import DaoLedger.Proofs.Batches
import DaoLedger.Proofs.Capacity
import DaoLedger.Proofs.Opening
import DaoLedger.Proofs.Complaints
import DaoLedger.Proofs.GovernanceLayouts
import DaoLedger.Proofs.Phases
import DaoLedger.Proofs.Sealing
import DaoLedger.Proofs.Sorting
import DaoLedger.Proofs.Commitments
import DaoLedger.Proofs.BlindVotes
import DaoLedger.Proofs.StoredVotes
import DaoLedger.Proofs.Listings
import DaoLedger.Proofs.Announcing
import DaoLedger.Proofs.Listening
import DaoLedger.Proofs.Bisection
import DaoLedger.Proofs.Linked
import DaoLedger.Proofs.Spelling
import DaoLedger.Proofs.Formats
