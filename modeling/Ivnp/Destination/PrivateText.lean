import Ivnp.Destination.LocalDestination

/-!
Private destinations as SAM clients give and get them (`private_destination.go`): the identity,
the private key of its encryption key and the private signing key, in I2P base64. A signing key
of zeros announces that the long-term key is offline, and a transient key with its authorisation
follows.
-/

namespace Ivnp.Destination

open Ivnp.Lib Ivnp.Foundation Ivnp.NetDb

/-- `MarshalOfflinePrivateTo`. -/
def OfflineSigning.bytes (offline : OfflineSigning) : Bytes :=
  natBE 4 offline.expires.toNat ++ (natBE 2 offline.keyType.code.toNat ++
    (offline.publicKey ++ (offline.signature ++ offline.privateKey)))

def encryptionPrivate (identity : Identity) (state : Bytes) (offset : Nat) : Option Bytes :=
  if cryptoKeyType identity = cryptoX25519 then some ((state.drop offset).take 32)
  else if cryptoKeyType identity = cryptoElGamal then
    if state.length < offset + 32 + 256 then none
    else some ((state.drop (offset + 32)).take 256)
  else none

def encodePrivateDestination (destination : LocalDestination) : Option Bytes :=
  match destination.marshalPrivateTo destination.privateEncodedLen with
  | none => none
  | some state =>
    let publicLength := (uint16At state 0).toNat
    if state.length < 2 ∨ publicLength = 0 ∨ state.length < 2 + publicLength + 32 then none
    else
      match decodeI2PBase64 ((state.drop 2).take publicLength) with
      | none => none
      | some publicRaw =>
        match parseIdentity publicRaw with
        | .error _ => none
        | .ok (identity, consumed) =>
          if consumed ≠ publicRaw.length then none
          else
            match statePrivateLen identity.signingType with
            | none => none
            | some stateSigningLength =>
              let offset := 2 + publicLength + stateSigningLength
              if state.length < offset + 32 then none
              else
                match encryptionPrivate identity state offset with
                | none => none
                | some encryption =>
                  let signing :=
                    match destination.offline with
                    | some offline => List.replicate 32 0 ++ offline.bytes
                    | none => (state.drop (2 + publicLength)).take 32
                  some (encodeI2PBase64 (publicRaw ++ (encryption ++ signing)))

def zeroBytes (value : Bytes) : Bool := value.all (· = 0)

def parseOfflinePrivateKey (identity : Identity) (bytes : Bytes) : Option OfflineSigning :=
  if bytes.length < 6 then none
  else
    match SigningKeyType.ofCode (uint16At bytes 4) with
    | none => none
    | some keyType =>
      let publicLength := keyType.publicKeyLen
      let signatureLength := identity.signingType.signatureLen
      if bytes.length ≠ 6 + publicLength + signatureLength + 32 then none
      else
        some
          { expires := uint32At bytes 0
            keyType
            publicKey := (bytes.drop 6).take publicLength
            signature := (bytes.drop (6 + publicLength)).take signatureLength
            privateKey := bytes.drop (6 + publicLength + signatureLength) }

/-- What the part after the encryption key says about the signing key: an error, the seed or
scalar itself, or a transient key in its place. -/
def signingPart (identity : Identity) (signing offlineSection : Bytes) :
    Option (Option OfflineSigning) :=
  if zeroBytes signing then (parseOfflinePrivateKey identity offlineSection).map some
  else if offlineSection.length ≠ 0 then none
  else some none

/-- The signing key of the private state. A Red25519 key goes only with X25519. -/
def stateSigningKey (crypto : DestinationCrypto) (identity : Identity) (signing : Bytes)
    (offline : Bool) : Option Bytes :=
  match identity.signingType with
  | .edDSASHA512Ed25519 =>
    some (if offline then List.replicate 64 0
      else (crypto.newKeyFromSeed (FixedBytes.copy 32 signing)).val)
  | .redDSASHA512Ed25519 =>
    if cryptoKeyType identity ≠ cryptoX25519 then none
    else some (if offline then List.replicate 32 0 else signing)
  | _ => none

/-- The end of `decodePrivateDestination`: the parts of the text are put together to a private
state, which is imported. `fresh` is the X25519 key that is drawn for an ElGamal identity. -/
def rebuildDestination (crypto : DestinationCrypto) (identity : Identity)
    (encryption signing offlineSection : Bytes) (fresh : FixedBytes 32) :
    Option LocalDestination :=
  match signingPart identity signing offlineSection with
  | none => none
  | some offline =>
    match stateSigningKey crypto identity signing offline.isSome with
    | none => none
    | some privateKey =>
      let legacy := cryptoKeyType identity = cryptoElGamal
      let x25519 := if legacy then fresh.val else encryption
      let elgamal := if legacy then encryption else []
      let text := encodeI2PBase64 identity.raw
      let state := natBE 2 text.length ++ (text ++ (privateKey ++ (x25519 ++ elgamal))) ++ [7]
      match offline with
      | some offline => importLocalDestinationOffline crypto state offline
      | none => importLocalDestination crypto state none

def encryptionLen (identity : Identity) : Nat :=
  if cryptoKeyType identity = cryptoElGamal then 256 else 32

def decodePrivateDestination (crypto : DestinationCrypto) (encoded : Bytes)
    (fresh : FixedBytes 32) : Option LocalDestination :=
  match decodeI2PBase64 encoded with
  | none => none
  | some wire =>
    match parseIdentity wire with
    | .error _ => none
    | .ok (identity, consumed) =>
      let cryptoType := cryptoKeyType identity
      if cryptoType ≠ cryptoX25519 ∧ cryptoType ≠ cryptoElGamal then none
      else
        let encryptionLength := encryptionLen identity
        if wire.length < consumed + encryptionLength + 32 then none
        else
          rebuildDestination crypto identity ((wire.drop consumed).take encryptionLength)
            ((wire.drop (consumed + encryptionLength)).take 32)
            (wire.drop (consumed + encryptionLength + 32)) fresh

inductive SignatureTypeOption where
  | unset
  | ed25519
  | red25519
  | other
  deriving DecidableEq

structure CommandRandom where
  seed : FixedBytes 32
  uniform : FixedBytes 64
  legacy : LegacyRandom
  fresh : FixedBytes 32

variable (crypto : DestinationCrypto)

def destGenerate (signatureType : SignatureTypeOption) (random : CommandRandom) :
    Option LocalDestination :=
  match signatureType with
  | .unset | .ed25519 => generateLegacyDestination crypto random.seed random.legacy
  | .red25519 => generateEncryptedDestination crypto random.uniform random.legacy
  | .other => none

/-- The options of `SESSION CREATE` that decide about the destination; `privateText` is none
for a transient one. -/
structure SessionOptions where
  privateText : Option Bytes
  signatureType : SignatureTypeOption
  encrypted : Bool
  datagram : Bool

def createSession (options : SessionOptions) (random : CommandRandom) : Option LocalDestination :=
  match options.privateText with
  | none =>
    if options.signatureType = .unset ∨
        options.signatureType = .ed25519 ∧ options.encrypted = false ∨
        options.signatureType = .red25519 ∧ options.encrypted = true then
      if options.encrypted then generateEncryptedDestination crypto random.uniform random.legacy
      else generateLegacyDestination crypto random.seed random.legacy
    else none
  | some text =>
    if options.signatureType ≠ .unset then none
    else
      match decodePrivateDestination crypto text random.fresh with
      | none => none
      | some d =>
        -- Blinding needs the long-term key, and Datagram1 cannot carry the authorisation.
        if d.offline.isSome ∧ (options.encrypted ∨ options.datagram) then none else some d

inductive Produced : LocalDestination → Prop
  | generated {signatureType : SignatureTypeOption} {random : CommandRandom} {d : LocalDestination}
      (h : destGenerate crypto signatureType random = some d) : Produced d
  | created {options : SessionOptions} {random : CommandRandom} {d : LocalDestination}
      (h : createSession crypto options random = some d) : Produced d

end Ivnp.Destination
