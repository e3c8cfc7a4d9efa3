import Bitchat.Data.InsertionMap
import Bitchat.Data.Bytes
import Bitchat.Data.Loop
import Bitchat.Protocol.Packet
import Bitchat.Data.Text
import Bitchat.Data.Run
import Bitchat.Mesh.StoreForward
import Bitchat.Mesh.StoreForwardAccounting
import Bitchat.Mesh.StoreForwardCaps
import Bitchat.Mesh.StoreForwardTermination
import Bitchat.Protocol.Codec
import Bitchat.Protocol.CodecRoundTrip
import Bitchat.Protocol.Fragmentation
import Bitchat.Protocol.Reassembly
import Bitchat.Protocol.ReassemblyView
import Bitchat.Protocol.ReassemblySoundness
import Bitchat.Protocol.ReassemblyProvenance
import Bitchat.Protocol.FragmentRoundTrip
import Bitchat.Protocol.FragmentDelivery
import Bitchat.Data.Stateful
import Bitchat.Crypto.Primitives
import Bitchat.Crypto.CipherState
import Bitchat.Crypto.CipherCalls
import Bitchat.Crypto.ReplayWindow
import Bitchat.Crypto.Laws
import Bitchat.Crypto.Handshake
import Bitchat.Data.HashChain
import Bitchat.Crypto.Transcript
import Bitchat.Crypto.Messages
import Bitchat.Crypto.Session
import Bitchat.Crypto.TransportStream
import Bitchat.Crypto.SessionSteps
import Bitchat.Crypto.HonestHandshake
import Bitchat.Crypto.Lifecycle
import Bitchat.Storage.Contacts
import Bitchat.App.SessionCoordinator
import Bitchat.App.PeerSlots
import Bitchat.App.CoordinatorRuns
import Bitchat.App.EstablishedSessions
import Bitchat.App.HandshakeTimeouts
import Bitchat.Protocol.CodecGrammar
import Bitchat.Mesh.Deduplicator
import Bitchat.Mesh.PacketIdentity
import Bitchat.Mesh.Router
import Bitchat.Mesh.RouterSteps
import Bitchat.Mesh.Network
import Bitchat.Mesh.FloodSafety
import Bitchat.Mesh.FloodCoverage
import Bitchat.Lan.Transport
import Bitchat.Lan.RelayedTraffic
import Bitchat.Lan.ConnectionEnds
import Bitchat.Lan.EndEvents
import Bitchat.Lan.SimultaneousOpen
import Bitchat.App.Relaying
import Bitchat.App.Custody
import Bitchat.Data.Recency
import Bitchat.Mesh.DeduplicatorCache
import Bitchat.Lan.Framing
import Bitchat.Lan.PacketLink
import Bitchat.App.AddressTables
import Bitchat.Lan.ConnectionTables
import Bitchat.Crypto.PeerBinding
import Bitchat.App.PendingHandshakes
import Bitchat.Storage.Config
import Bitchat.App.PinnedContacts
import Bitchat.App.Disconnects
import Bitchat.App.TrustGate
import Bitchat.Mesh.Routes
import Bitchat.App.RelayedCopies
import Bitchat.Protocol.RejectedFragments
import Bitchat.Lan.ReadLoop
import Bitchat.Data.Words
import Bitchat.Nim.Packet
import Bitchat.Nim.Reassembly
import Bitchat.Nim.ReassemblyAgreement
import Bitchat.App.LearnedRoutes
import Bitchat.Lan.Discovery
import Bitchat.App.Nicknames
import Bitchat.App.UniqueNicknames
import Bitchat.Lan.DiscoveryRegistry
import Bitchat.Mesh.StoreForwardDelivery
import Bitchat.Crypto.HandshakeSeals
import Bitchat.Crypto.HandshakeStages
import Bitchat.Crypto.DeliveredHandshakes
import Bitchat.Crypto.HandshakeAuthentication
import Bitchat.Data.SlidingWindow
import Bitchat.Mesh.RateLimit
import Bitchat.Data.DefaultedChoice
import Bitchat.Data.PythonValue
import Bitchat.Storage.Keybindings
import Bitchat.Storage.ConfigValues
import Bitchat.Tui.DirectMessages
import Bitchat.App.PeerSpellings
import Bitchat.Lan.PeersApart
import Bitchat.App.Broadcast
import Bitchat.Crypto.Curve25519
import Bitchat.Crypto.LowOrderKeys
import Bitchat.Data.Json
import Bitchat.Data.JsonRoundTrip
import Bitchat.Lan.Beacon
import Bitchat.Ble.Link
import Bitchat.Ble.LinkDelivery
import Bitchat.Ble.ServerWrites
import Bitchat.Data.JsonIndent
import Bitchat.Storage.Identity
import Bitchat.Storage.IdentityStore
import Bitchat.Crypto.SecureChannel
import Bitchat.Crypto.KeyAgreement
import Bitchat.App.TransportLifecycle
import Bitchat.App.TransportRuns
import Bitchat.Data.Descent
import Bitchat.Mesh.RouteDescent
import Bitchat.Nim.Fragmentation
