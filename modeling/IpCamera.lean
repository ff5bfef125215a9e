import IpCamera.RingFifo
import IpCamera.SequenceWrap
import IpCamera.HeaderTiming
import IpCamera.CompareIds
import IpCamera.ShmApi
import IpCamera.ForwardNFrame
import IpCamera.KeyFrameStart
import IpCamera.AviComplete
import IpCamera.AviWellFormed
import IpCamera.AviFailures
import IpCamera.RecordThread
import IpCamera.SegmentLength
import IpCamera.SegmentRotation
import IpCamera.NetUpgrade
import IpCamera.UpgradeTool
import IpCamera.AppUpgrade
import IpCamera.UserLogin
import IpCamera.ReaderTable
import IpCamera.RecordFileName
import IpCamera.FileSearch
import IpCamera.SearchList
import IpCamera.CleanUp
import IpCamera.RecordMode
import IpCamera.ParamStore
import IpCamera.FactoryReset
import IpCamera.UpgradePackage
import IpCamera.Playback
import IpCamera.RecordStamps
import IpCamera.RecordSchedule
import IpCamera.RecorderThreads
import IpCamera.UserTable
import IpCamera.MotionAreas
import IpCamera.MotionRegions
import IpCamera.PlaybackSessions
import IpCamera.Paging
import IpCamera.EventList
import IpCamera.LineInput
import IpCamera.AlarmList
import IpCamera.CopyFile
import IpCamera.Gb2312
import IpCamera.NumberText
import IpCamera.AddressText
import IpCamera.ParamInit
import IpCamera.RecordPlanGet
import IpCamera.RecordingList
import IpCamera.IndexUpdate
import IpCamera.MotionPush
import IpCamera.NetInfo
import IpCamera.Calendar
import IpCamera.LocalTime
import IpCamera.SystemTime
import IpCamera.EventHandle
import IpCamera.OnesComplement
import IpCamera.NetworkTool
import IpCamera.NalUnits
import IpCamera.PosixShell
import IpCamera.NetWifi
import IpCamera.WifiConfig
import IpCamera.LineScan
import IpCamera.WifiApList
import IpCamera.AccessPointScan
import IpCamera.AccessPointCells
import IpCamera.AccessPointChoice
import IpCamera.SocketTransfer
import IpCamera.TimeCode
import IpCamera.LastIndex
import IpCamera.OsdTiles
import IpCamera.MotionFrames
import IpCamera.VideoSenders
import IpCamera.UpgradePath
import IpCamera.UserAccess
import IpCamera.RecordToPlayer
import IpCamera.RequestedPlayback
