import Miningcore.Foundation.Text
import Miningcore.Foundation.NumberParsing
import Miningcore.Foundation.ByteLayout
import Miningcore.Foundation.Run
import Miningcore.Foundation.OnceOnly
import Miningcore.Foundation.Registry
import Miningcore.Foundation.Tally
import Miningcore.Foundation.KeyOrder
import Miningcore.Foundation.KeysetPaging
import Miningcore.Foundation.Paging
import Miningcore.Foundation.Transaction
import Miningcore.Foundation.RecentWindow
import Miningcore.Foundation.Interaction
import Miningcore.Foundation.Interleaving
import Miningcore.Foundation.Framing
import Miningcore.Foundation.ArrayHeap
import Miningcore.Foundation.Resilience
import Miningcore.Foundation.Messages
import Miningcore.Foundation.PairwiseTree
import Miningcore.Foundation.FloatingPoint
import Miningcore.Foundation.Dictionary
import Miningcore.Foundation.WrappingCounter
import Miningcore.Foundation.Intervals
import Miningcore.Crypto.MerkleTree
import Miningcore.Extensions.StringExtensions
import Miningcore.Configuration.ClusterConfig
import Miningcore.VarDiff.VarDiffManager
import Miningcore.VarDiff.Retargeting
import Miningcore.Stratum.ShareAcceptance
import Miningcore.Extensions.ArrayExtensions
import Miningcore.Stratum.StratumClient
import Miningcore.Stratum.WorkerContext
import Miningcore.Stratum.Connection
import Miningcore.Stratum.DifficultyFloor
import Miningcore.DaemonInterface.DaemonClient
import Miningcore.DaemonInterface.Endpoints
import Miningcore.Blockchain.ExchangeCoin.BlockHeader
import Miningcore.Blockchain.ExchangeCoin.Job
import Miningcore.Blockchain.ExchangeCoin.MiningNotify
import Miningcore.Blockchain.ExchangeCoin.NonceSpace
import Miningcore.Blockchain.ExchangeCoin.JobManager
import Miningcore.Blockchain.ExchangeCoin.BlockSubmission
import Miningcore.Blockchain.ExchangeCoin.SubmitRequests
import Miningcore.Blockchain.ExchangeCoin.RefusedSubmissions
import Miningcore.Blockchain.ExtraNonceProvider
import Miningcore.Blockchain.CoinbaseOutputs
import Miningcore.Blockchain.Bitcoin.Job
import Miningcore.Blockchain.Bitcoin.Coinbase
import Miningcore.Blockchain.Bitcoin.JobManager
import Miningcore.Blockchain.ValidJobs
import Miningcore.Blockchain.StratumPools
import Miningcore.Blockchain.ZCash.Job
import Miningcore.Blockchain.ZCash.Coinbase
import Miningcore.Blockchain.ZCash.Solutions
import Miningcore.Blockchain.ZCash.MiningNotify
import Miningcore.Blockchain.Bitcoin.PreviousHash
import Miningcore.Blockchain.Ethereum.Job
import Miningcore.Blockchain.Ethereum.JobManager
import Miningcore.Blockchain.Monero.Job
import Miningcore.Blockchain.Monero.Pool
import Miningcore.Blockchain.Monero.BlobAgreement
import Miningcore.Blockchain.Monero.LoginIdentity
import Miningcore.Blockchain.EncodedTargets
import Miningcore.Persistence.Database
import Miningcore.Persistence.Balances
import Miningcore.Payments.Pplns
import Miningcore.Payments.PplnsRewards
import Miningcore.Payments.PplnsPaging
import Miningcore.Payments.PplnsWindow
import Miningcore.Payments.PayoutScheme
import Miningcore.Payments.PayoutManager
import Miningcore.Payments.BlockEffort
import Miningcore.Payments.BlockClassification
import Miningcore.Payments.EthereumClassification
import Miningcore.Payments.EthereumMaturity
import Miningcore.Payments.EthereumCredits
import Miningcore.Payments.OrphanedBlocks
import Miningcore.Blockchain.ExchangeCoin.ShareScore
import Miningcore.Mining.ShareRecorder
import Miningcore.Mining.BlockNotifications
import Miningcore.Mining.ShareRecovery
import Miningcore.Payments.PayoutLedger
import Miningcore.Payments.PayoutRound
import Miningcore.Payments.BalanceHistory
import Miningcore.Payments.ExactRewards
import Miningcore.Payments.RewardBound
import Miningcore.Payments.PplnsPruning
import Miningcore.Payments.PayoutHandlerBase
import Miningcore.Payments.BitcoinPayout
import Miningcore.Payments.MoneroPayout
import Miningcore.Payments.PayoutProtocol
import Miningcore.Payments.PersistedPayments
import Miningcore.Payments.PayoutRuns
import Miningcore.Payments.LedgerCompleteness
import Miningcore.Payments.AtMostOnce
import Miningcore.Payments.DebitedAmounts
import Miningcore.Banning.IntegratedBanManager
import Miningcore.Banning.BanCalls
import Miningcore.Foundation.BitPacking
import Miningcore.Foundation.AlignedBlocks
import Miningcore.Crypto.EquihashIndices
import Miningcore.Foundation.Positional
import Miningcore.Crypto.EquihashSolution
import Miningcore.Crypto.EquihashVerify
import Miningcore.Blockchain.ExchangeCoin.AcceptedSolutions
import Miningcore.Blockchain.Monero.Base58
import Miningcore.Blockchain.Monero.Addresses
import Miningcore.Blockchain.Monero.AddressValidation
import Miningcore.Foundation.Refinement
import Miningcore.Foundation.RingLayout
import Miningcore.Util.CircularBuffer
import Miningcore.VarDiff.TimeBuffer
import Miningcore.Foundation.Loops
import Miningcore.Crypto.Ethash
import Miningcore.Crypto.EthashDag
import Miningcore.Blockchain.Ethereum.VerifiedShares
import Miningcore.Foundation.LeastRecentlyUsed
import Miningcore.Crypto.EthashFull
import Miningcore.Crypto.EthashTasks
import Miningcore.Crypto.EthashSafety
