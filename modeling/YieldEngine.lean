import YieldEngine.Host
import YieldEngine.SortedMap
import YieldEngine.Transact
import YieldEngine.VaultAuthority
import YieldEngine.VaultTimelock
import YieldEngine.VaultExit
import YieldEngine.VaultPrice
import YieldEngine.VaultFees
import YieldEngine.VaultOwnership
import YieldEngine.RouterState
import YieldEngine.RouterAmounts
import YieldEngine.RouterSwap
import YieldEngine.Walks
import YieldEngine.RouterRoutes
import YieldEngine.RouterSearch
import YieldEngine.ConstantProduct
import YieldEngine.RouterProduct
import YieldEngine.RouterExecution
import YieldEngine.RouterQueue
import YieldEngine.RouterPause
import YieldEngine.PagedLog
import YieldEngine.VaultPacing
import YieldEngine.ListenerState
import YieldEngine.ListenerRuns
import YieldEngine.ListenerDelivery
import YieldEngine.ListenerAllowList
import YieldEngine.Dispatch
import YieldEngine.ListenerHandlers
import YieldEngine.ListenerProgress
import YieldEngine.RebalancerRuns
import YieldEngine.RebalancerCooldown
import YieldEngine.BackoffWaits
import YieldEngine.BackoffTick
import YieldEngine.BackoffRestart
import YieldEngine.BackoffAlone
import YieldEngine.SilentCalls
import YieldEngine.EarlyExit
import YieldEngine.RetryLoop
import YieldEngine.EngineHalt
import YieldEngine.EngineAudit
import YieldEngine.InsuranceCalls
import YieldEngine.InsuranceEstimate
import YieldEngine.InsuranceCoverage
import YieldEngine.InsuranceBacking
import YieldEngine.InsurancePayouts
import YieldEngine.InsuranceSettlement
import YieldEngine.RootCurve
import YieldEngine.InsuranceDivergence
import YieldEngine.InsurancePremium
import YieldEngine.ActuaryPricing
import YieldEngine.BoundedLog
import YieldEngine.RebalanceBreaker
import YieldEngine.RebalanceFeeds
import YieldEngine.RebalancePacing
import YieldEngine.PerShare
import YieldEngine.RewardPromises
import YieldEngine.InitializeOnce
import YieldEngine.RebalancePools
import YieldEngine.RewardValues
import YieldEngine.RewardCompound
import YieldEngine.RewardEmission
import YieldEngine.VaultMultisig
import YieldEngine.RebalanceAnalysis
import YieldEngine.RebalanceSlippage
import YieldEngine.RebalanceVaultCooldown
import YieldEngine.RebalanceViews
import YieldEngine.IssuedNumbers
import YieldEngine.RebalanceStrategies
import YieldEngine.RebalanceLoss
import YieldEngine.Pages
import YieldEngine.RegistryApprovals
import YieldEngine.PagedReads
import YieldEngine.OraclePrices
import YieldEngine.CheckpointStore
import YieldEngine.LimiterPacing
import YieldEngine.WhileLoops
import YieldEngine.RouterIntegers
import YieldEngine.RebalanceAccuracy
import YieldEngine.RelativeFalls
import YieldEngine.YieldDrawdown
import YieldEngine.LogLoops
import YieldEngine.RunLogs
import YieldEngine.RegistryLogs
import YieldEngine.RegistryMetrics
import YieldEngine.NewestEntries
import YieldEngine.ProposalCodec
import YieldEngine.DecimalNumerals
import YieldEngine.TokenAmounts
import YieldEngine.Selection
import YieldEngine.ArbitrageScan
import YieldEngine.ArbitragePipeline
import YieldEngine.Accounts
import YieldEngine.GovernanceToken
import YieldEngine.VotingEscrow
import YieldEngine.StakingContract
import YieldEngine.FeeDistributor
import YieldEngine.ProtocolGovernor
import YieldEngine.KeyedLoops
import YieldEngine.GovernorEffects
import YieldEngine.EmergencyMultisig
import YieldEngine.GovernanceRuns
import YieldEngine.GovernanceSupply
import YieldEngine.PooledAccounts
import YieldEngine.GovernanceCustody
import YieldEngine.GovernanceSolvency
import YieldEngine.LockCommitments
import YieldEngine.VotingPower
import YieldEngine.ProposalTrail
import YieldEngine.GovernorRuns
import YieldEngine.RepeatedVotes
import YieldEngine.DecidedProposals
import YieldEngine.GovernorParameters
import YieldEngine.EmergencySigners
import YieldEngine.FeeClaims
import YieldEngine.FeeLedger
import YieldEngine.PassedStakes
import YieldEngine.InertData
import YieldEngine.LagMonitor
import YieldEngine.LagReports
import YieldEngine.LagRestarts
import YieldEngine.ActuaryQuotes
import YieldEngine.GovernanceForecasts
