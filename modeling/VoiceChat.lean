import VoiceChat.Jitter.Playout
import VoiceChat.Jitter.Recovery
import VoiceChat.Jitter.Wraparound
import VoiceChat.Jitter.Reordering
import VoiceChat.Jitter.Delay
import VoiceChat.Jitter.Depth
import VoiceChat.Jitter.Holdoff
import VoiceChat.Jitter.Sorted
import VoiceChat.Crypto.ReplayWindow
import VoiceChat.Net.PeerList
import VoiceChat.Net.Datagram
import VoiceChat.Peer.AddressIndex
import VoiceChat.Peer.Capacity
import VoiceChat.Dsp
import VoiceChat.Latency.Outstanding
import VoiceChat.Session.Authenticity
import VoiceChat.Session.Join
import VoiceChat.Session.Nonces
import VoiceChat.Session.Wire
import VoiceChat.Session.Once
import VoiceChat.Session.Replayed
import VoiceChat.Session.Atomicity
import VoiceChat.Session.ArrivalOrder
import VoiceChat.Session.Vacancy
import VoiceChat.Session.Silence
import VoiceChat.Session.MainLoop
import VoiceChat.Session.Station
import VoiceChat.Session.Playback
import VoiceChat.Session.Loopback
import VoiceChat.Session.Display
import VoiceChat.Pair.Upgrade
import VoiceChat.Pair.Replay
import VoiceChat.Pair.Rekeying
import VoiceChat.Pair.Played
import VoiceChat.Group
import VoiceChat.Mesh.Agreement
import VoiceChat.Mesh.Completion
import VoiceChat.Mesh.Bootstrap
import VoiceChat.Mesh.Membership
import VoiceChat.Mesh.Hearing
