import Loam.AdminStreams
import Loam.AnswerOrder
import Loam.BlockDrain
import Loam.BlockLogKeeps
import Loam.BodyFrameRuns
import Loam.BodySessions
import Loam.BodySought
import Loam.ChangeFollow
import Loam.DoorbellRuns
import Loam.EcReads
import Loam.FleetRouters
import Loam.Handles
import Loam.IndexLog
import Loam.LeaseRedelivery
import Loam.ListPages
import Loam.ManifestReader
import Loam.MapWalk
import Loam.MergeRuns
import Loam.ObjectUploads
import Loam.ObjectUsage
import Loam.ProposerMarker
import Loam.ProposerResults
import Loam.RequestReaders
import Loam.SnapshotSwitch
import Loam.VolumeDrain
import Loam.VolumeReadRuns
import Loam.WalRotation
import Loam.WireLaws
