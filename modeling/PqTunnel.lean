import PqTunnel.Crypto.Separation
import PqTunnel.Handshake.Agreement
import PqTunnel.Handshake.PrunePasses
import PqTunnel.Manager.Alternation
import PqTunnel.Manager.Silence
import PqTunnel.Manager.NonceUse
import PqTunnel.Handshake.Recovery
import PqTunnel.Manager.Noninterference
import PqTunnel.Driver.Readiness
import PqTunnel.Forward.Bindings
import PqTunnel.Tun.Mirror
import PqTunnel.Dataplane.Bounds
import PqTunnel.Handshake.Reassembly
import PqTunnel.Forward.Pool
import PqTunnel.Handshake.RateReference
import PqTunnel.Tun.Guards
import PqTunnel.Dataplane.AtMostOnce
import PqTunnel.Session.Lifecycle
import PqTunnel.Manager.BucketTables
import PqTunnel.Manager.SlotPace
import PqTunnel.Manager.SidHistory
import PqTunnel.Dataplane.Checksum
