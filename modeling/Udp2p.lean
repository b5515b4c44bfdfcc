import Udp2p.Lib.Machine
import Udp2p.Lib.Collections
import Udp2p.Lib.Format
import Udp2p.Protocol.Packetize
import Udp2p.Net.SocketAddr
import Udp2p.Transport.Handler
import Udp2p.Transport.Reassembly
import Udp2p.Transport.Delivery
import Udp2p.GdUdp.Outbox
import Udp2p.GdUdp.Maintenance
import Udp2p.GdUdp.Drain
import Udp2p.GdUdp.Retransmission
import Udp2p.Transport.Transport
import Udp2p.Transport.Agreement
import Udp2p.Lib.PrefixTree
import Udp2p.Lib.Nearest
import Udp2p.Discovery.Routing
import Udp2p.Discovery.Invariant
import Udp2p.Discovery.Duplicates
import Udp2p.Discovery.Capacity
import Udp2p.Discovery.Closest
import Udp2p.Discovery.Membership
import Udp2p.Protocol.Tightness
import Udp2p.Node.Prefixes
import Udp2p.GdUdp.GivingUp
import Udp2p.Transport.Network
import Udp2p.Transport.Release
import Udp2p.Discovery.Kademlia
import Udp2p.Discovery.Dispatch
import Udp2p.Lib.Once
import Udp2p.Discovery.Flooding
import Udp2p.Discovery.Survival
import Udp2p.Discovery.Solicited
import Udp2p.Gossip.Gossip
import Udp2p.Gossip.Suppression
import Udp2p.Gossip.Dissemination
import Udp2p.Lib.BigEndian
import Udp2p.Node.Closeness
import Udp2p.Node.Ranges
import Udp2p.Node.Duality
import Udp2p.Discovery.Placement
import Udp2p.Discovery.Removal
import Udp2p.Discovery.Staleness
import Udp2p.Discovery.Activations
import Udp2p.Discovery.Json
import Udp2p.Discovery.Lookup
import Udp2p.Discovery.Replies
import Udp2p.GdUdp.Accounts
import Udp2p.Transport.Chronicle
import Udp2p.Transport.Integrity
import Udp2p.Transport.Receipts
import Udp2p.Transport.Json
import Udp2p.Transport.Closed
import Udp2p.Transport.Addressing
import Udp2p.Transport.Reliability
import Udp2p.Transport.Quiescence
import Udp2p.Discovery.Provenance
import Udp2p.Discovery.Small
import Udp2p.Discovery.Exchange
import Udp2p.Gossip.Relay
import Udp2p.Gossip.Json
import Udp2p.Lib.Recency
import Udp2p.Discovery.Recency
import Udp2p.Lib.Throttle
import Udp2p.GdUdp.Pacing
import Udp2p.Gossip.Load
import Udp2p.Gossip.Cache
import Udp2p.System.System
import Udp2p.System.Refinement
import Udp2p.System.Knowledge
import Udp2p.System.Closed
import Udp2p.System.Rumors
