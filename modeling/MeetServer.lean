import MeetServer.Sfu.WorkerLoads
import MeetServer.Sfu.OccupiedClose
import MeetServer.Realtime.Routing
import MeetServer.Realtime.StaleClose
import MeetServer.Realtime.GhostPeer
import MeetServer.Realtime.Steps
import MeetServer.Realtime.Teardown
import MeetServer.Realtime.Gateway
import MeetServer.Realtime.Pinning
import MeetServer.Realtime.Divergence
import MeetServer.Realtime.Session
import MeetServer.Sfu.OpenProducers
import MeetServer.Sfu.Transports
import MeetServer.Sfu.FailedTransports
import MeetServer.Sfu.Agreement
import MeetServer.Realtime.Outlines
import MeetServer.Realtime.MediaOutlines
import MeetServer.Realtime.Backfill
import MeetServer.Realtime.Joiners
import MeetServer.Realtime.Closing
import MeetServer.Foundation.Keyspace
import MeetServer.Realtime.Isolation
import MeetServer.Foundation.UrlPath
import MeetServer.Rest.Routes
import MeetServer.Realtime.Server
import MeetServer.Foundation.Channels
import MeetServer.Realtime.Broadcasts
import MeetServer.Realtime.Announcements
import MeetServer.Foundation.Bytes
import MeetServer.Foundation.History
import MeetServer.Recording.Packets
import MeetServer.Recording.Service
import MeetServer.Recording.Steps
import MeetServer.Recording.Paths
import MeetServer.Recording.Headers
import MeetServer.Recording.SessionFiles
import MeetServer.Recording.Overwrites
import MeetServer.Recording.WriteOrder
import MeetServer.Recording.Finalising
import MeetServer.Recording.Speakers
import MeetServer.Recording.Meetings
import MeetServer.Recording.Peers
import MeetServer.Recording.Orphans
import MeetServer.Recording.Timeline
import MeetServer.Recording.Rtcp
import MeetServer.Sfu.Consumers
import MeetServer.Sfu.MediaSteps
import MeetServer.Sfu.Evolution
import MeetServer.Sfu.PeerIsolation
import MeetServer.Realtime.Burst
import MeetServer.Foundation.EventLog
import MeetServer.Realtime.Chat
import MeetServer.Realtime.ChatHistory
import MeetServer.Realtime.Resume
import MeetServer.Foundation.Expiry
import MeetServer.Realtime.Lifetimes
import MeetServer.Sfu.Balance
import MeetServer.Recording.Datagrams
import MeetServer.Recording.FailedCloses
import MeetServer.Recording.FailedStarts
import MeetServer.Recording.FailedProduces
import MeetServer.Recording.Origin
import MeetServer.Recording.Reordering
import MeetServer.Recording.RtpPackets
import MeetServer.Realtime.FailedJoins
import MeetServer.Realtime.Departures
import MeetServer.Foundation.Progress
import MeetServer.Sfu.Progress
import MeetServer.Sfu.Streams
import MeetServer.Recording.Waits
import MeetServer.Recording.Progress
import MeetServer.Recording.Quiescence
import MeetServer.Realtime.Waits
import MeetServer.Realtime.Progress
import MeetServer.Realtime.Meeting
import MeetServer.Realtime.Refinement
import MeetServer.Realtime.Abandonment
import MeetServer.Foundation.Riff
import MeetServer.Recording.Playback
import MeetServer.Rest.Remote
import MeetServer.Foundation.Unwinding
import MeetServer.Sfu.RoomViews
import MeetServer.Sfu.RoomCalls
import MeetServer.Sfu.RoomIsolation
import MeetServer.Foundation.Simulation
import MeetServer.Recording.Bystanders
import MeetServer.Realtime.SharedRedis
