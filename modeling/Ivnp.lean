import Ivnp.Cryptography.ElGamal
import Ivnp.Cryptography.ElligatorRoundTrip
import Ivnp.Cryptography.X25519
import Ivnp.Destination.TextRoundTrip
import Ivnp.Garlic.RatchetReplay
import Ivnp.NetDb.ClosestPeers
import Ivnp.NetDb.EncryptedOpening
import Ivnp.NetDb.LeaseAvailability
import Ivnp.NetDb.ConfirmedPublisher
import Ivnp.NetDb.StoreFlooder
import Ivnp.Router.AckedDelivery
import Ivnp.Router.ControlConservation
import Ivnp.Router.RelayIntegrity
import Ivnp.Router.RelayResponses
import Ivnp.Router.ReplayWindow
import Ivnp.Ssu2.AckSets
import Ivnp.Ssu2.AddressTokens
import Ivnp.Ssu2.CrossedHandshakes
import Ivnp.Ssu2.FragmentRoundTrip
import Ivnp.Ssu2.ReservationOwner
import Ivnp.Ssu2.SendReroute
import Ivnp.Ssu2.WindowBalance
import Ivnp.Streaming.Schedules
import Ivnp.Streaming.StreamIntegrity
import Ivnp.Streaming.WriteContract
import Ivnp.Tunnel.BlockCodec
import Ivnp.Tunnel.DeliveryState
import Ivnp.Tunnel.Interleaving
import Ivnp.Tunnel.RoundTrip
import Ivnp.Tunnel.ShortRoundTrip
import Ivnp.Tunnel.VariableReplay
import Ivnp.Tunnel.VariableStart
