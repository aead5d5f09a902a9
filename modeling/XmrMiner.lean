import XmrMiner.Crypto.Blake256
import XmrMiner.Crypto.Cryptonight
import XmrMiner.Crypto.Groestl
import XmrMiner.Crypto.Jh
import XmrMiner.Crypto.Skein
import XmrMiner.Cuda.Batches
import XmrMiner.Cuda.DeviceScan
import XmrMiner.Cuda.Final
import XmrMiner.Cuda.FinalHashes
import XmrMiner.Cuda.FindDevice
import XmrMiner.Cuda.HashBatch
import XmrMiner.Cuda.Phase2Refine
import XmrMiner.Cuda.Phase3
import XmrMiner.Cuda.Prepare
import XmrMiner.Miner.Advance
import XmrMiner.Miner.Credentials
import XmrMiner.Miner.DevPool
import XmrMiner.Miner.HashInput
import XmrMiner.Miner.HttpCalls
import XmrMiner.Miner.Limits
import XmrMiner.Miner.Locks
import XmrMiner.Miner.Options
import XmrMiner.Miner.PoolChange
import XmrMiner.Miner.Restart
import XmrMiner.Miner.RoundTrip
import XmrMiner.Miner.Sessions
import XmrMiner.Miner.Workers
import XmrMiner.Stratum.RecvRoom
import XmrMiner.Stratum.ShareReplies
import XmrMiner.Util.HexBuffer
