import Cmusic.Basic
import Cmusic.AssetNames
import Cmusic.AssetScripts
import Cmusic.Verifier
import Cmusic.TxAssets
import Cmusic.TxCheck
import Cmusic.AssetsCache
import Cmusic.Coins
import Cmusic.CheckTxAssets
import Cmusic.Conservation
import Cmusic.Authority
import Cmusic.AssetOps
import Cmusic.UpdateCoins
import Cmusic.BlockIndex
import Cmusic.Pow
import Cmusic.Headers
import Cmusic.HeaderAdmission
import Cmusic.HeaderStability
import Cmusic.Deployments
import Cmusic.DeploymentReach
import Cmusic.CoinTotals
import Cmusic.ConnectBlock
import Cmusic.Inflation
import Cmusic.MempoolIndependence
import Cmusic.DisconnectBlock
import Cmusic.AssetSlots
import Cmusic.AssetActions
import Cmusic.AssetRoundTrip
import Cmusic.Lib.Lru
import Cmusic.Lib.Table
import Cmusic.AssetStore
import Cmusic.CacheRuns
import Cmusic.Lib.FlagLayers
import Cmusic.FreezeRefinement
import Cmusic.VerifierRefinement
import Cmusic.QualifierNames
import Cmusic.QualifierRefinement
import Cmusic.NullCommands
import Cmusic.CommandRoundTrip
import Cmusic.CommandAuthority
import Cmusic.RestrictedEnforcement
import Cmusic.ChainRuns
import Cmusic.NameUniqueness
import Cmusic.LiveAssets
import Cmusic.MetadataRefinement
import Cmusic.Lib.Reads
import Cmusic.ScriptRoundTrip
import Cmusic.VerifierGrammar
import Cmusic.MetadataBounds
import Cmusic.BlockContext
import Cmusic.Lib.TwoWayIndex
import Cmusic.Lib.Walk
import Cmusic.Lib.Ledger
import Cmusic.Utxo
import Cmusic.Mempool
import Cmusic.MempoolAccept
import Cmusic.MempoolLinks
import Cmusic.RemoveForBlock
import Cmusic.StillValid
import Cmusic.MempoolRuns
import Cmusic.MempoolNames
import Cmusic.MempoolMaps
import Cmusic.MempoolSpends
import Cmusic.ReissueLock
import Cmusic.AddressIndex
import Cmusic.IndexRoundTrip
import Cmusic.SpentIndex
import Cmusic.Lib.WriteBack
import Cmusic.CoinsLayers
import Cmusic.BlockTree
import Cmusic.ThresholdStates
import Cmusic.Lib.CachedWalk
import Cmusic.MempoolStats
import Cmusic.MempoolExact
import Cmusic.MempoolReadd
import Cmusic.Interpreter
import Cmusic.Subsidy
import Cmusic.ChainLedger
import Cmusic.AssetSpending
import Cmusic.VerifierAcceptance
import Cmusic.VerifierScan
import Cmusic.NameGrammar
import Cmusic.NameHierarchy
import Cmusic.Retarget
import Cmusic.Messaging
import Cmusic.TestBlock
import Cmusic.BurnFees
import Cmusic.Lib.Cursor
import Cmusic.DatabaseRows
import Cmusic.Snapshots
import Cmusic.Rewards
import Cmusic.Compressor
import Cmusic.DirtySets
import Cmusic.ArithUint256
