import DeipChain.Lib.OrderedMap
import DeipChain.Lib.Snapshots
import DeipChain.Chainbase.GenericIndex
import DeipChain.Chainbase.Undo
import DeipChain.Chainbase.Replay
import DeipChain.Chainbase.Squash
import DeipChain.Chainbase.Failures
import DeipChain.Chainbase.Database
import DeipChain.Chain.Block
import DeipChain.Chain.History
import DeipChain.Chain.ForkDatabase
import DeipChain.Chain.Database
import DeipChain.Chain.Application
import DeipChain.Chain.Atomicity
import DeipChain.Chain.Lineage
import DeipChain.Chain.Revision
import DeipChain.Chain.Branches
import DeipChain.Chain.CommonAncestors
import DeipChain.Chain.Anchor
import DeipChain.Chain.Irreversible
import DeipChain.Chain.Strand
import DeipChain.Chain.Invariance
import DeipChain.Chain.Transactions
import DeipChain.Chain.Reindex
import DeipChain.Lib.Result
import DeipChain.Lib.Outcome
import DeipChain.Lib.Table
import DeipChain.Ledger.Objects
import DeipChain.Ledger.Balances
import DeipChain.Ledger.Assets
import DeipChain.Ledger.Votes
import DeipChain.Ledger.Withdrawals
import DeipChain.Ledger.Books
import DeipChain.Ledger.Payments
import DeipChain.Ledger.TokenSales
import DeipChain.Ledger.SaleBooks
import DeipChain.Ledger.Supplies
import DeipChain.Ledger.Grants
import DeipChain.Ledger.Awards
import DeipChain.Ledger.AwardBooks
import DeipChain.Ledger.Expertise
import DeipChain.Ledger.Contracts
import DeipChain.Ledger.Accounts
import DeipChain.Ledger.Genesis
import DeipChain.Ledger.GenesisBooks
import DeipChain.Ledger.Blocks
import DeipChain.Ledger.SecurityTokens
import DeipChain.Ledger.Writes
import DeipChain.Ledger.Allocations
import DeipChain.Ledger.AllocationRuns
import DeipChain.Ledger.Runs
import DeipChain.Ledger.AssetTraits
import DeipChain.Lib.Decimals
import DeipChain.Ledger.AssetText
import DeipChain.Ledger.AssetCreation
import DeipChain.Ledger.SaleTimes
import DeipChain.Ledger.SaleShares
import DeipChain.Ledger.LicenseFees
import DeipChain.Ledger.CheckedShares
import DeipChain.Ledger.EciGrants
import DeipChain.Ledger.EciGrantRounds
import DeipChain.Ledger.EciGrantRuns
import DeipChain.Ledger.Vesting
import DeipChain.Ledger.AwardRuns
import DeipChain.Ledger.Invariants
import DeipChain.Lib.Rooted
import DeipChain.Ledger.AwardTrees
import DeipChain.Ledger.Opportunities
import DeipChain.Lib.Installments
import DeipChain.Ledger.WithdrawalWalks
import DeipChain.Ledger.WithdrawalRuns
import DeipChain.Ledger.WithdrawalRoutes
import DeipChain.Ledger.Ballots
import DeipChain.Ledger.ProxyChains
import DeipChain.Ledger.WithdrawalPayouts
import DeipChain.Ledger.WithdrawalPasses
import DeipChain.Ledger.WithdrawalRounds
import DeipChain.Lib.Words
import DeipChain.Chain.LogFiles
import DeipChain.Lib.Selection
import DeipChain.Chain.WitnessSchedule
import DeipChain.Chain.ScheduleRounds
import DeipChain.Chain.Slots
import DeipChain.Chain.Participation
import DeipChain.Chain.Finality
import DeipChain.Chain.VirtualTime
import DeipChain.Chain.Hardforks
import DeipChain.Chain.HeadTime
import DeipChain.Chain.Production
import DeipChain.Chain.ProductionRuns
import DeipChain.Chain.PendingPool
import DeipChain.Chain.SizedBlocks
import DeipChain.Chain.Acceptance
import DeipChain.Protocol.Authority
import DeipChain.Protocol.Derivation
import DeipChain.Protocol.Authorization
import DeipChain.Protocol.Approvals
import DeipChain.Protocol.RequiredSignatures
import DeipChain.Protocol.Asking
import DeipChain.Protocol.Minimization
import DeipChain.Protocol.MerkleRoot
import DeipChain.Protocol.AccountNames
import DeipChain.Lib.TextStream
import DeipChain.Protocol.Versions
import DeipChain.Expertise.Contributions
import DeipChain.Expertise.Evaluation
import DeipChain.Research.GroupShares
import DeipChain.Accounts.Recovery
import DeipChain.Accounts.RecoveryRuns
import DeipChain.Research.Membership
import DeipChain.Research.ResearchMembers
import DeipChain.Research.GroupAuthority
import DeipChain.Proposals.Operations
import DeipChain.Proposals.Nesting
import DeipChain.Proposals.Database
import DeipChain.Proposals.Execution
import DeipChain.Proposals.Stores
import DeipChain.Proposals.Chains
import DeipChain.Proposals.Steady
import DeipChain.Proposals.Expiry
import DeipChain.Proposals.Context
import DeipChain.Proposals.Review
import DeipChain.Proposals.Atomic
import DeipChain.Plugins.AccountByKey
import DeipChain.Plugins.AccountByKeyRuns
import DeipChain.Plugins.ProposalHistory
import DeipChain.Plugins.ProposalObjects
import DeipChain.Plugins.ProposalHistoryRuns
import DeipChain.Lib.Halving
import DeipChain.Sync.Lookups
import DeipChain.Sync.Synopsis
import DeipChain.Sync.Inventory
import DeipChain.Sync.Shared
import DeipChain.Sync.Exchange
import DeipChain.Sync.Rounds
import DeipChain.Sync.Convergence
import DeipChain.Sync.CatchUp
import DeipChain.Sync.Backlog
import DeipChain.Sync.DelayedNode
import DeipChain.Net.Connection
import DeipChain.Net.GossipSources
