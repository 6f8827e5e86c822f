import KernelModules.DscWaiters
import KernelModules.DscQuiescence
import KernelModules.SyncPayload
import KernelModules.SyncRefs
import KernelModules.SyncOutcome
import KernelModules.CrmCounter
import KernelModules.CrmProgress
import KernelModules.CrmFlush
import KernelModules.CrmSession
import KernelModules.IspReads
import KernelModules.IspBubbles
import KernelModules.IspFences
import KernelModules.SmRobustness
import KernelModules.WbuffOwnership
import KernelModules.BipReplay
import KernelModules.DefragOrder
import KernelModules.IeRefines
import KernelModules.HtcOrder
import KernelModules.CdmBudget
import KernelModules.CdmBlBounds
import KernelModules.RmnetCoalescing
import KernelModules.TxFlowQueues
import KernelModules.TxFlowLifetime
import KernelModules.ScanCacheLifetime
import KernelModules.CopyEngineRuns
import KernelModules.RejectListRuns
import KernelModules.BlmScanList
import KernelModules.RegTwins
import KernelModules.RegRanges
import KernelModules.SmmuScratchRuns
import KernelModules.SmmuMapRuns
import KernelModules.RxReorderRuns
import KernelModules.RxPnRuns
import KernelModules.DefragDemic
import KernelModules.CrmWorkqRuns
import KernelModules.CfgStoreRuns
import KernelModules.CamPacketBlobs
import KernelModules.CdmExecBounds
import KernelModules.CdmDumpBounds
import KernelModules.CrmTraversal
import KernelModules.SyncRollback
import KernelModules.HtcReceive
import KernelModules.HtcBundleRuns
import KernelModules.RmnetDeagRuns
import KernelModules.OlTxRuns
import KernelModules.OlTxConserving
import KernelModules.VenusReader
import KernelModules.IcpStream
import KernelModules.WlanActive
import KernelModules.WlanRejected
import KernelModules.WlanScanLimit
import KernelModules.WlanReached
import KernelModules.FlexMemRuns
import KernelModules.CamDualIsp
import KernelModules.CamPower
import KernelModules.BssScoreBounds
import KernelModules.QdfAddr
import KernelModules.QdfArrayParse
