import AxiomCarriers.Antie.Backoff
import AxiomCarriers.Antie.Backpressure
import AxiomCarriers.Antie.Builders
import AxiomCarriers.Antie.CareOf
import AxiomCarriers.Antie.CarrierBackoff
import AxiomCarriers.Antie.CarrierIo
import AxiomCarriers.Antie.ChequeRoute
import AxiomCarriers.Antie.Custody
import AxiomCarriers.Antie.Dispatch
import AxiomCarriers.Antie.Email
import AxiomCarriers.Antie.Gateway
import AxiomCarriers.Antie.Heartbeats
import AxiomCarriers.Antie.Imap
import AxiomCarriers.Antie.ImapIdle
import AxiomCarriers.Antie.ImapPull
import AxiomCarriers.Antie.ImapQuote
import AxiomCarriers.Antie.Inbox
import AxiomCarriers.Antie.KeyCache
import AxiomCarriers.Antie.LambdaIpc
import AxiomCarriers.Antie.LambdaTcp
import AxiomCarriers.Antie.Outbound
import AxiomCarriers.Antie.Outgoing
import AxiomCarriers.Antie.PeerAudit
import AxiomCarriers.Antie.Pop3
import AxiomCarriers.Antie.Pop3Pull
import AxiomCarriers.Antie.Pop3Stream
import AxiomCarriers.Antie.RateLimit
import AxiomCarriers.Antie.ReadLoops
import AxiomCarriers.Antie.Refusal
import AxiomCarriers.Antie.Respawn
import AxiomCarriers.Antie.RoutedOutbox
import AxiomCarriers.Antie.SkipList
import AxiomCarriers.Antie.Stalls
import AxiomCarriers.Antie.Subject
import AxiomCarriers.Antie.Supervision
import AxiomCarriers.Antie.Waiting
import AxiomCarriers.Antie.Watchdog
import AxiomCarriers.Antie.WireFormat
import AxiomCarriers.Fatmama.Addresses
import AxiomCarriers.Fatmama.Admission
import AxiomCarriers.Fatmama.Collector
import AxiomCarriers.Fatmama.CollectorPass
import AxiomCarriers.Fatmama.CrossSite
import AxiomCarriers.Fatmama.Dashboard
import AxiomCarriers.Fatmama.DataReader
import AxiomCarriers.Fatmama.Deletion
import AxiomCarriers.Fatmama.Dial
import AxiomCarriers.Fatmama.DialRate
import AxiomCarriers.Fatmama.Hosts
import AxiomCarriers.Fatmama.HttpApi
import AxiomCarriers.Fatmama.HttpCommands
import AxiomCarriers.Fatmama.Isolation
import AxiomCarriers.Fatmama.Pop3
import AxiomCarriers.Fatmama.Recipient
import AxiomCarriers.Fatmama.Reclaim
import AxiomCarriers.Fatmama.Registration
import AxiomCarriers.Fatmama.RouteFile
import AxiomCarriers.Fatmama.Routes
import AxiomCarriers.Fatmama.Smtp
import AxiomCarriers.Fatmama.Starvation
import AxiomCarriers.Fatmama.Transfer
import AxiomCarriers.Lib.Base64
import AxiomCarriers.Lib.Bytes
import AxiomCarriers.Lib.FairLock
import AxiomCarriers.Lib.Frame
import AxiomCarriers.Lib.Headers
import AxiomCarriers.Lib.History
import AxiomCarriers.Lib.Loop
import AxiomCarriers.Lib.Quoted
import AxiomCarriers.Lib.Reader
import AxiomCarriers.Lib.Run
import AxiomCarriers.Lib.Separator
import AxiomCarriers.Lib.Stuffing
import AxiomCarriers.Lib.Sweep
import AxiomCarriers.Lib.Table
import AxiomCarriers.Lib.Text
import AxiomCarriers.Lib.Utf8
import AxiomCarriers.Seam.CareOf
import AxiomCarriers.Seam.Certificates
import AxiomCarriers.Seam.Deposits
import AxiomCarriers.Seam.Envelope
import AxiomCarriers.Seam.Journey
import AxiomCarriers.Seam.Outbox
import AxiomCarriers.Seam.Pickup
import AxiomCarriers.Seam.Pump
import AxiomCarriers.Seam.Recipient
import AxiomCarriers.Seam.Retr
import AxiomCarriers.Seam.SessionFiles
import AxiomCarriers.Seam.Sessions
import AxiomCarriers.Seam.Submission
import AxiomCarriers.Tot.Deliveries
import AxiomCarriers.Tot.Intake
import AxiomCarriers.Tot.Limits
import AxiomCarriers.Tot.PrefixedStream
import AxiomCarriers.Tot.RateLimiter
import AxiomCarriers.Tot.Replies
import AxiomCarriers.Tot.Server
import AxiomCarriers.Tot.Sessions
import AxiomCarriers.Tot.Stamp
import AxiomCarriers.Tot.Tunnel
