import BananaWrt.Lib.Run
import BananaWrt.Lib.Bytes
import BananaWrt.Lib.Calls
import BananaWrt.Lib.Counter
import BananaWrt.Lib.Keyed
import BananaWrt.Lib.Lines
import BananaWrt.Lib.Regex
import BananaWrt.Lib.Stream
import BananaWrt.Lib.Tlv
import BananaWrt.Lib.TwoStep
import BananaWrt.QmiMsg
import BananaWrt.Proofs.QmiMsg
import BananaWrt.QmiProxy
import BananaWrt.QmiProxyRun
import BananaWrt.Proofs.QmiProxyLink
import BananaWrt.Proofs.QmiProxyDelivery
import BananaWrt.Proofs.QmiProxyOwnership
import BananaWrt.Proofs.QmiProxyFraming
import BananaWrt.MbimProxy
import BananaWrt.MbimProxyRun
import BananaWrt.Proofs.MbimProxyLoop
import BananaWrt.Proofs.MbimProxyRouting
import BananaWrt.Proofs.MbimProxyFraming
import BananaWrt.QmiThread
import BananaWrt.Proofs.QmiThread
import BananaWrt.QmiRequests
import BananaWrt.QmiSession
import BananaWrt.Proofs.QmiSession
import BananaWrt.QmiMain
import BananaWrt.Proofs.QmiMain
import BananaWrt.Proofs.QmiLink
import BananaWrt.QmiProfile
import BananaWrt.Proofs.QmiProfile
import BananaWrt.QmiWwanCM
import BananaWrt.Proofs.QmiWwanCM
import BananaWrt.MbimCM
import BananaWrt.Proofs.MbimCM
import BananaWrt.QrtrProxy
import BananaWrt.Proofs.QrtrProxyServices
import BananaWrt.Proofs.QrtrProxyIds
import BananaWrt.CmRead
import BananaWrt.Proofs.CmRead
import BananaWrt.QmapDecode
import BananaWrt.Proofs.QmapDecode
import BananaWrt.QmapEncode
import BananaWrt.QmapFibocom
import BananaWrt.AtChannel
import BananaWrt.AtcProxy
import BananaWrt.Proofs.AtcProxy
import BananaWrt.UpdateChangelog
import BananaWrt.Proofs.ChangelogText
import BananaWrt.Proofs.UpdateChangelog
import BananaWrt.Proofs.QmapRoundTrip
import BananaWrt.UlAgg
import BananaWrt.Proofs.UlAgg
import BananaWrt.Proofs.QmapLink
import BananaWrt.Lib.Ring
import BananaWrt.MhiPm
import BananaWrt.MhiXfer
import BananaWrt.Proofs.MhiSteps
import BananaWrt.Proofs.MhiRings
import BananaWrt.Proofs.MhiUplink
import BananaWrt.Proofs.MhiSuspend
import BananaWrt.Proofs.MhiDoorbell
import BananaWrt.MhiEvent
import BananaWrt.Proofs.MhiEvent
import BananaWrt.MhiPower
import BananaWrt.Proofs.MhiPower
import BananaWrt.MhiEvRing
import BananaWrt.Proofs.MhiEvRing
import BananaWrt.MhiCmd
import BananaWrt.Proofs.MhiCmd
import BananaWrt.MhiPmCalls
import BananaWrt.Proofs.MhiPmCalls
import BananaWrt.Lib.Links
import BananaWrt.MhiMbim
import BananaWrt.Proofs.MhiMbim
import BananaWrt.Proofs.MhiMbimDeliver
import BananaWrt.MhiQmap
import BananaWrt.Proofs.MhiQmap
import BananaWrt.MhiNetQueue
import BananaWrt.Proofs.MhiNetQueue
import BananaWrt.MhiUci
import BananaWrt.Proofs.MhiUci
import BananaWrt.ModemRegistry
import BananaWrt.Proofs.ModemRegistry
import BananaWrt.DialConfig
import BananaWrt.Proofs.DialConfig
import BananaWrt.Lib.Script
import BananaWrt.UpdateScript
import BananaWrt.Proofs.UpdateScript
import BananaWrt.Lib.Writes
import BananaWrt.QmiCompose
import BananaWrt.Proofs.QmiCompose
import BananaWrt.UserInput
import BananaWrt.Proofs.UserInput
import BananaWrt.Proofs.QmiBounds
import BananaWrt.Proofs.QmiSysInfo
import BananaWrt.Proofs.QmiAddress
import BananaWrt.MbimConnect
import BananaWrt.Proofs.MbimConnect
import BananaWrt.MbimIpConfig
import BananaWrt.Proofs.MbimIpConfig
import BananaWrt.QrtrProxyPackets
import BananaWrt.Proofs.QrtrProxyPackets
import BananaWrt.AtReadline
import BananaWrt.Proofs.AtReadline
import BananaWrt.AtPipeline
import BananaWrt.Proofs.AtPipeline
import BananaWrt.UlXmit
import BananaWrt.Proofs.QmapAggregate
import BananaWrt.Proofs.UlXmit
import BananaWrt.Proofs.QmapCommands
import BananaWrt.QmapWalk
import BananaWrt.Proofs.QmapFibocom
import BananaWrt.AtTok
import BananaWrt.Atc
import BananaWrt.Proofs.AtTok
import BananaWrt.Proofs.Atc
import BananaWrt.Proofs.ResolvConf
import BananaWrt.Proofs.QmapMode
import BananaWrt.Proofs.ChangelogMerge
import BananaWrt.Proofs.MhiQmapRoundTrip
import BananaWrt.MhiDtr
import BananaWrt.MhiLink
import BananaWrt.MhiPoll
import BananaWrt.MhiReset
import BananaWrt.MhiStart
import BananaWrt.MhiUciWrite
import BananaWrt.Proofs.MhiChanCtxt
import BananaWrt.Proofs.MhiDtr
import BananaWrt.Proofs.MhiLink
import BananaWrt.Proofs.MhiPoll
import BananaWrt.Proofs.MhiReset
import BananaWrt.Proofs.MhiUciBad
import BananaWrt.Proofs.MhiUciWrite
import BananaWrt.MhiUciOpen
import BananaWrt.Proofs.MhiUciOpen
import BananaWrt.MhiCapability
import BananaWrt.MhiRingPtr
import BananaWrt.PatchManager
import BananaWrt.PathStatus
import BananaWrt.Proofs.MhiCapability
import BananaWrt.Proofs.MhiRingPtr
import BananaWrt.Proofs.PatchManager
import BananaWrt.Proofs.PathStatus
import BananaWrt.Proofs.StopQmi
import BananaWrt.DialRun
import BananaWrt.Proofs.DialRun
import BananaWrt.Proofs.WwanFirewall
import BananaWrt.Lib.Shell
import BananaWrt.ModemDebug
import BananaWrt.Proofs.ModemDebug
import BananaWrt.Lib.Circular
import BananaWrt.MbimThread
import BananaWrt.Proofs.MbimThread
import BananaWrt.Proofs.QmiProxyHeap
import BananaWrt.Lib.Ledger
import BananaWrt.Lib.Records
import BananaWrt.MhiChannel
import BananaWrt.MhiPci
import BananaWrt.Proofs.MhiChannel
import BananaWrt.Proofs.MhiPci
import BananaWrt.LedNetdev
import BananaWrt.Lib.Printf
import BananaWrt.MhiMon
import BananaWrt.Proofs.LedNetdev
import BananaWrt.Proofs.MhiMon
import BananaWrt.Lib.Refcount
import BananaWrt.MhiNetPool
import BananaWrt.Proofs.MhiNetPool
