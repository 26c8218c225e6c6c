import Ylrtc.Base.BitrateEstimator
import Ylrtc.Base.ByteBuffer
import Ylrtc.Base.MemoryPool
import Ylrtc.Base.SequenceNumber
import Ylrtc.Base.UdpSocket
import Ylrtc.Base.Unwrapping
import Ylrtc.Dtls.Fingerprint
import Ylrtc.Ice.Crc32
import Ylrtc.Ice.IceLite
import Ylrtc.Ice.StunReads
import Ylrtc.Ice.StunResponse
import Ylrtc.Lib.MachineInt
import Ylrtc.Lib.Run
import Ylrtc.Lib.SyncCalls
import Ylrtc.Rtcp.CompoundRoundTrip
import Ylrtc.Rtcp.FeedbackConsistency
import Ylrtc.Rtcp.FeedbackReads
import Ylrtc.Rtcp.FeedbackWire
import Ylrtc.Rtcp.NackWire
import Ylrtc.Rtcp.NtpDifference
import Ylrtc.Rtcp.PushedSizes
import Ylrtc.Rtcp.SentBytes
import Ylrtc.Rtcp.XrBlocks
import Ylrtc.Rtcp.XrWire
import Ylrtc.Rtp.ExtensionRemap
import Ylrtc.Rtp.Packet
import Ylrtc.Rtp.PacketLayout
import Ylrtc.Rtp.PayloadH264
import Ylrtc.Rtp.PayloadVp8
import Ylrtc.Rtp.StreamIds
import Ylrtc.Signaling.Announcement
import Ylrtc.Signaling.AnswerPayloads
import Ylrtc.Signaling.HttpSession
import Ylrtc.Signaling.KeepAlive
import Ylrtc.Signaling.ResponseTexts
import Ylrtc.Signaling.ManageApi
import Ylrtc.Signaling.TrackClocks
import Ylrtc.Signaling.Transactions
import Ylrtc.Signaling.WebsocketSession
import Ylrtc.Transport.CarriedNumbers
import Ylrtc.Transport.ConnectionRuns
import Ylrtc.Transport.Forwarding
import Ylrtc.Transport.FractionLost
import Ylrtc.Transport.Jitter
import Ylrtc.Transport.KeyframeGate
import Ylrtc.Transport.KeyframeRequester
import Ylrtc.Transport.LayerRequest
import Ylrtc.Transport.LayerTimestamps
import Ylrtc.Transport.NackBatches
import Ylrtc.Transport.NackRuns
import Ylrtc.Transport.NackSets
import Ylrtc.Transport.Nominations
import Ylrtc.Transport.OutputNumbers
import Ylrtc.Transport.RecorderQueue
import Ylrtc.Transport.ReportBlocks
import Ylrtc.Transport.Retention
import Ylrtc.Transport.RidTracks
import Ylrtc.Transport.RoundTripTimes
import Ylrtc.Transport.RtxRepair
import Ylrtc.Transport.RtxRoundTrip
import Ylrtc.Transport.SenderReports
import Ylrtc.Transport.SubscribeRtcp
import Ylrtc.Transport.TransportSequence
import Ylrtc.Transport.WorkerThreads
import Ylrtc.Twcc.ArrivalRuns
import Ylrtc.Twcc.InterArrivalDelta
import Ylrtc.Twcc.PeriodicFeedback
import Ylrtc.Twcc.ReceiveTimes
import Ylrtc.Twcc.SendSide
import Ylrtc.Twcc.Trendline
