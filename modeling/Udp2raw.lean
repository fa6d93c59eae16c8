import Udp2raw.Attempt.Commands
import Udp2raw.Attempt.Failures
import Udp2raw.Cli.Redact
import Udp2raw.ConvTable
import Udp2raw.Crypto.Kdf
import Udp2raw.Dns.Independence
import Udp2raw.Endpoint.Answers
import Udp2raw.Endpoint.CacheRoundTrip
import Udp2raw.Endpoint.Durability
import Udp2raw.Endpoint.Lockout
import Udp2raw.Endpoint.Probes
import Udp2raw.Endpoint.Queries
import Udp2raw.Endpoint.Rotation
import Udp2raw.Endpoint.Schedule
import Udp2raw.Kernel.Resources
import Udp2raw.Kernel.Route
import Udp2raw.Packet.Corruption
import Udp2raw.Pipeline.Shutdown
import Udp2raw.Pipeline.Wakeup
import Udp2raw.Server.Recovery
import Udp2raw.Server.Routing
import Udp2raw.Server.Waiting
import Udp2raw.Session.Tunnel
import Udp2raw.Session.World
