import Hbcur.Coins.CacheRefinement
import Hbcur.Validation.RoundTrip
import Hbcur.Validation.WrappedSums
import Hbcur.Script.SigOpWork
import Hbcur.Script.SigCache
import Hbcur.Wallet.CombinedSignatures
import Hbcur.BlockIndex.Reorg
import Hbcur.Pow.Retarget
import Hbcur.Stake.TargetHit
import Hbcur.SwiftTx.NormalPayment
import Hbcur.SwiftTx.Tally
import Hbcur.Mempool.Orphans
import Hbcur.Mempool.Atomic
import Hbcur.Validation.Bounds
import Hbcur.Stake.Selected
import Hbcur.Mempool.Removal
import Hbcur.Miner.FeeRates
import Hbcur.Miner.Connects
import Hbcur.Spork.State
import Hbcur.Masternode.CanVote
import Hbcur.Masternode.VoteCounts
import Hbcur.Masternode.OrphanVotes
import Hbcur.Masternode.ArrivalOrder
import Hbcur.Masternode.Allocation
import Hbcur.Net.Delivery
import Hbcur.Merkle.Size
import Hbcur.Merkle.Mutation
import Hbcur.CheckQueue.Sequential
import Hbcur.BlockIndex.Persistence
import Hbcur.AddrMan.Restore
import Hbcur.Masternode.Seesaw
import Hbcur.Serialize.Coins
import Hbcur.BlockIndex.Arrival
import Hbcur.Masternode.BlockHashes
import Hbcur.Net.InFlight
import Hbcur.Net.Relevance
import Hbcur.Net.TimeData
import Hbcur.BlockIndex.Files
import Hbcur.BlockIndex.Replay
import Hbcur.Masternode.Expiry
import Hbcur.Masternode.RandomChoice
import Hbcur.Wallet.Passphrase
import Hbcur.Wallet.Balance
import Hbcur.Script.Assertions
import Hbcur.Serialize.Money
import Hbcur.BlockIndex.ChainTrust
import Hbcur.Net.LimitedMap
