import VoiceChat.Library.Aead

/-!
# Third-party code

What the program takes from libraries: the AEAD cipher, X25519, HKDF and the Opus
decoder, as functions. The decoder is an arbitrary stateful one; a step returns
the next decoder state with the samples, or with none when the codec reports an
error.
-/

set_option autoImplicit false

namespace VoiceChat

/-- One frame of PCM samples. -/
abbrev Pcm := List Int16

structure Primitives (D : Type) where
  aead : Aead
  /-- The X25519 public key of a secret. -/
  publicKey : Key → Key
  /-- The X25519 shared secret of a secret and a public key. -/
  diffieHellman : Key → Key → Key
  /-- The 32 bytes HKDF-SHA256 expands from a salt, a key and an info string. -/
  hkdf : (salt ikm info : Bytes) → Key
  decode : D → Bytes → D × Option Pcm
  decodePlc : D → D × Option Pcm

end VoiceChat
