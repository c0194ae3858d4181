import Mathlib.Init

/-!
# Errors

The errors that the packet and session code returns, with the values that their
texts name. `indexOutOfBounds` is not returned: it stands for the panic of a slice
access past the end, which ends the session thread.
-/

set_option autoImplicit false

namespace VoiceChat

inductive Error where
  | packetTooShort (length : Nat)
  | headerTooShort (length : Nat)
  | joinTooShort
  | peerListTooShort
  | peerListTruncated
  | peerListTruncatedV4
  | peerListTruncatedV6
  | unknownIpVersion (marker : UInt8)
  | keyExchangeTooShort (length : Nat)
  | pingTooShort
  | indexOutOfBounds
  | sendCounterOverflow
  | encryptFailed
  | decryptFailed
  | zeroSharedSecret
  | onlyHostAllocates
  | noMorePeerIds
  | maxPeersReached
  | decoderInit
  | opusDecode
  | replayDetected (peerId : UInt8)
  | nonHostReceivedJoin
  | emptyPeerList
  | noLocalAddr
  | noLocalIp
  | sendFailed
  | unknownPacketType (pktType : UInt8)
  deriving DecidableEq

end VoiceChat
