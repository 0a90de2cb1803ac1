import BridgeKernel.Bridge.Calls
import BridgeKernel.Bridge.ConfigText
import BridgeKernel.Proofs.Store.Steps
import BridgeKernel.Telemetry.LogSettings
import BridgeKernel.Proofs.Store.Frame
import BridgeKernel.Proofs.Replay
import BridgeKernel.Proofs.Claim.Proposal
import BridgeKernel.Proofs.Header.Records
import BridgeKernel.Proofs.Header.Rules
import BridgeKernel.Proofs.Header.Steps
import BridgeKernel.Proofs.Header.Sync
import BridgeKernel.Proofs.Custody.Steps
import BridgeKernel.Proofs.Bridge.Run
import BridgeKernel.Proofs.Bridge.Admission
import BridgeKernel.Proofs.Header.Tree
import BridgeKernel.Proofs.Header.Canonical
import BridgeKernel.Proofs.Bridge.HeaderRun
import BridgeKernel.Proofs.Header.Lineage
import BridgeKernel.Proofs.Header.Justified
import BridgeKernel.Proofs.Custody.Outputs
import BridgeKernel.Proofs.Custody.Ledger
import BridgeKernel.Proofs.Bridge.CustodyRun
import BridgeKernel.Proofs.Store.Agree
import BridgeKernel.Proofs.Custody.Isolation
import BridgeKernel.Proofs.Bridge.CustodyIsolation
import BridgeKernel.Proofs.Bridge.Refusal
import BridgeKernel.Proofs.Bitcoin.Codec
import BridgeKernel.Proofs.Bitcoin.Signature
import BridgeKernel.Proofs.Custody.Payment
import BridgeKernel.Proofs.Custody.Redeem
import BridgeKernel.Proofs.Custody.Unlock
import BridgeKernel.Proofs.Custody.Journal
import BridgeKernel.Proofs.Custody.Orderly
import BridgeKernel.Proofs.Custody.Conservation
import BridgeKernel.Proofs.Bridge.CustodyJournal
import BridgeKernel.Proofs.Custody.Finalization
import BridgeKernel.Proofs.Bridge.CustodyFinalization
import BridgeKernel.Proofs.Vote.Ballots
import BridgeKernel.Proofs.Vote.Quorum
import BridgeKernel.Proofs.Merkle
import BridgeKernel.Proofs.Curve
import BridgeKernel.Proofs.Committee
import BridgeKernel.Proofs.Committee.Succession
import BridgeKernel.Proofs.Bridge.CommitteeRun
import BridgeKernel.Proofs.Trie.Binding
import BridgeKernel.Proofs.Claim.TaggedTrie
import BridgeKernel.Proofs.Wire.Rlp
import BridgeKernel.Proofs.Claim.Evm
import BridgeKernel.Proofs.Header.Buried
import BridgeKernel.Proofs.Bridge.EvmRun
import BridgeKernel.Proofs.Claim.Relay
import BridgeKernel.Proofs.Bridge.RelayRun
import BridgeKernel.Proofs.Store.Calm
import BridgeKernel.Proofs.Header.Interruption
import BridgeKernel.Proofs.Bridge.Interruption
import BridgeKernel.Proofs.Claim.Delivery
import BridgeKernel.Proofs.Claim.RelayOrder
import BridgeKernel.Proofs.Header.Walk
import BridgeKernel.Proofs.Header.Verdict
import BridgeKernel.Proofs.Store.Twins
import BridgeKernel.Proofs.Header.Isolation
import BridgeKernel.Proofs.Claim.Isolation
import BridgeKernel.Proofs.Bridge.ChainIsolation
import BridgeKernel.Proofs.Header.Progress
import BridgeKernel.Proofs.Header.Convergence
import BridgeKernel.Proofs.Bridge.HeaderOrder
import BridgeKernel.Proofs.Custody.Listing
import BridgeKernel.Proofs.Header.Gains
import BridgeKernel.Proofs.Bridge.Counting
import BridgeKernel.Proofs.Bridge.AdmissionCount
import BridgeKernel.Proofs.Bridge.VoteCount
import BridgeKernel.Proofs.Bridge.HeaderCount
import BridgeKernel.Proofs.Wire.VarBytes
import BridgeKernel.Proofs.Wire.RlpList
import BridgeKernel.Proofs.Trie.Nibbles
import BridgeKernel.Proofs.Trie.TaggedNode
import BridgeKernel.Proofs.Trie.TaggedTree
import BridgeKernel.Proofs.Trie.PatriciaTrie
import BridgeKernel.Proofs.Trie.PatriciaProof
import BridgeKernel.Proofs.Custody.Balance
import BridgeKernel.Proofs.Custody.Selection
import BridgeKernel.Proofs.Custody.Signing
import BridgeKernel.Proofs.Bridge.SignedPayments
import BridgeKernel.Proofs.Header.Epochs
import BridgeKernel.Proofs.Bridge.EpochRun
import BridgeKernel.Proofs.Header.Reports
import BridgeKernel.Proofs.Bridge.ReportRun
import BridgeKernel.Proofs.Header.Sealing
import BridgeKernel.Proofs.Header.Lifecycle
import BridgeKernel.Proofs.Bridge.LifecycleRun
import BridgeKernel.Proofs.Header.Gas
import BridgeKernel.Proofs.Bridge.GasRun
import BridgeKernel.Proofs.Header.Batching
import BridgeKernel.Proofs.Bridge.BatchRun
import BridgeKernel.Proofs.Wire.Canonical
import BridgeKernel.Proofs.Committee.Message
import BridgeKernel.Proofs.Wire.RlpSpelling
import BridgeKernel.Proofs.Event
import BridgeKernel.Proofs.Header.Encoding
import BridgeKernel.Proofs.Bitcoin.Script
import BridgeKernel.Proofs.Custody.Template
import BridgeKernel.Proofs.Merkle.Path
import BridgeKernel.Proofs.Vote.Answers
import BridgeKernel.Proofs.Vote.Intersection
import BridgeKernel.Proofs.Wire.VarSpelling
import BridgeKernel.Proofs.Trie.TaggedSpelling
import BridgeKernel.Proofs.Custody.Intake
import BridgeKernel.Proofs.Custody.ElementLimit
import BridgeKernel.Proofs.Bridge.UnlockRun
import BridgeKernel.Proofs.Header.ExtraData
import BridgeKernel.Proofs.Store.History
