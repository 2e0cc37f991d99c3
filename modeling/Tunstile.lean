import Tunstile.Buffer
import Tunstile.RingWindow
import Tunstile.History
import Tunstile.Windows
import Tunstile.Runs
import Tunstile.Traces
import Tunstile.Basic
import Tunstile.Replay
import Tunstile.Crypto
import Tunstile.Message
import Tunstile.Cookies
import Tunstile.Transport
import Tunstile.Handshake
import Tunstile.Transcript
import Tunstile.Ideal
import Tunstile.Agreement
import Tunstile.Soundness
import Tunstile.Peer
import Tunstile.Lifecycle
import Tunstile.Counters
import Tunstile.World
import Tunstile.Exchange
import Tunstile.TwoParty
import Tunstile.Delivery
import Tunstile.Router
import Tunstile.Actor
import Tunstile.Staging
import Tunstile.Fifo
import Tunstile.Routing
import Tunstile.LiveRoutes
import Tunstile.StaleRoutes
import Tunstile.Replies
import Tunstile.Packet
import Tunstile.AllowedIps
import Tunstile.Device
import Tunstile.Mirror
import Tunstile.Tracking
import Tunstile.Guard
import Tunstile.Challenge
import Tunstile.ReadLoop
import Tunstile.CookieBinding
import Tunstile.WireFormat
import Tunstile.Bounds
import Tunstile.Inbound
import Tunstile.Totality
import Tunstile.RateBound
import Tunstile.LongestMatch
import Tunstile.Padding
import Tunstile.Deadlines
import Tunstile.Operations
import Tunstile.Batching
import Tunstile.Moves
import Tunstile.Waiting
import Tunstile.Published
import Tunstile.Retransmission
import Tunstile.Timers
import Tunstile.Rekeying
import Tunstile.SendLimit
import Tunstile.SleepUntil
import Tunstile.Text
import Tunstile.Display
import Tunstile.Config
import Tunstile.ConfigFile
import Tunstile.ConfigMeaning
import Tunstile.Closing
import Tunstile.Conduct
import Tunstile.EndToEnd
import Tunstile.Lossless
import Tunstile.Preshared
import Tunstile.Reordering
import Tunstile.Silence
import Tunstile.Startup
