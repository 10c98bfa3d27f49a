import QuicTunnel.Common.Bytes

/-!
# Cryptographic primitives

What the sources use of the `p256` crate and of SHA-256.  Nothing is assumed of them: a result that
needs the laws of the curve takes `P256.Laws` as a hypothesis.
-/

namespace QuicTunnel

/-- The part of `p256::ecdsa` that signs and recovers. -/
structure P256 where
  /-- `VerifyingKey`. -/
  Key : Type
  /-- `ecdsa::Signature`. -/
  Sig : Type
  /-- `recoverable::Signature`. -/
  Recoverable : Type
  /-- `to_encoded_point(compress)`, as SEC1 bytes. -/
  toSec1 : Key → Bool → Bytes
  /-- `VerifyingKey::from_sec1_bytes`. -/
  fromSec1 : Bytes → Option Key
  /-- `Signature::from_der`. -/
  fromDer : Bytes → Option Sig
  /-- `normalize_s`, `none` for a signature that is low-s already. -/
  normalizeS : Sig → Option Sig
  /-- `recoverable::Signature::from_trial_recovery`. -/
  fromTrialRecovery : Key → Bytes → Sig → Option Recoverable
  /-- The bytes `r || s || v`. -/
  toBytes : Recoverable → Bytes
  /-- `recoverable::Signature::try_from`. -/
  tryFrom : Bytes → Option Recoverable
  /-- `recover_verifying_key`. -/
  recoverVerifyingKey : Recoverable → Bytes → Option Key

/-- P-256 and SHA-256. -/
structure Primitives extends P256 where
  sha256 : Bytes → Bytes

/-! ### The laws of the curve -/

/-- What a result may assume of P-256.  `Verifies vk msg sig` says that `sig` is a signature over
`msg` that the key `vk` made. -/
structure P256.Laws (p : P256) (Verifies : p.Key → Bytes → p.Sig → Prop) : Prop where
  /-- A key is read back from either SEC1 form. -/
  fromSec1_toSec1 : ∀ vk compress, p.fromSec1 (p.toSec1 vk compress) = some vk
  /-- Normalising gives the low-s signature over the same message. -/
  normalizeS : ∀ vk msg sig low, Verifies vk msg sig → p.normalizeS sig = some low →
    Verifies vk msg low ∧ p.normalizeS low = none
  /-- Trial recovery is correct for a low-s signature made by the key. -/
  trialRecovery : ∀ vk msg sig, Verifies vk msg sig → p.normalizeS sig = none →
    ∃ recSig, p.fromTrialRecovery vk msg sig = some recSig ∧
      p.recoverVerifyingKey recSig msg = some vk
  /-- A recoverable signature is its 65 bytes. -/
  toBytes_length : ∀ recSig, (p.toBytes recSig).length = 65
  tryFrom_toBytes : ∀ recSig, p.tryFrom (p.toBytes recSig) = some recSig

/-- The signature that goes into trial recovery is low-s and made by the key. -/
theorem P256.Laws.low {p : P256} {Verifies : p.Key → Bytes → p.Sig → Prop}
    (laws : p.Laws Verifies) {vk : p.Key} {msg : Bytes} {sig : p.Sig} (h : Verifies vk msg sig) :
    Verifies vk msg ((p.normalizeS sig).getD sig) ∧
      p.normalizeS ((p.normalizeS sig).getD sig) = none := by
  cases hn : p.normalizeS sig with
  | none => exact ⟨h, hn⟩
  | some low => exact laws.normalizeS vk msg sig low h hn

/-! ### The values of one key

Computed once outside, for the runs that need an identity: a P-256 key, a signature over one domain
made with it, and the digests that occur. -/

namespace Sample

/-- The public key, SEC1 compressed. -/
def compressed : Bytes :=
  [0x03, 0x63, 0xf1, 0x3c, 0x44, 0x9f, 0x04, 0x58, 0x35, 0x1e, 0xe1, 0xc6, 0x04, 0x22, 0xd4, 0x7c,
   0xfe, 0x9f, 0x39, 0xd4, 0xda, 0x31, 0x7c, 0x85, 0x3e, 0x50, 0x54, 0xb8, 0x7b, 0x52, 0xad, 0xcd,
   0xe7]

/-- The public key, SEC1 uncompressed. -/
def uncompressed : Bytes :=
  [0x04, 0x63, 0xf1, 0x3c, 0x44, 0x9f, 0x04, 0x58, 0x35, 0x1e, 0xe1, 0xc6, 0x04, 0x22, 0xd4, 0x7c,
   0xfe, 0x9f, 0x39, 0xd4, 0xda, 0x31, 0x7c, 0x85, 0x3e, 0x50, 0x54, 0xb8, 0x7b, 0x52, 0xad, 0xcd,
   0xe7, 0x9f, 0x8d, 0x03, 0x7e, 0xc9, 0x84, 0x65, 0xb1, 0xcf, 0x68, 0xd0, 0x20, 0x43, 0x8a, 0x9a,
   0x97, 0x25, 0x50, 0x08, 0x6e, 0x9d, 0xe2, 0xf9, 0xea, 0x3a, 0x37, 0xbe, 0x4d, 0x0f, 0xef, 0xce,
   0x55]

/-- SHA-256 of the compressed key. -/
def digest : Bytes :=
  [0x2e, 0xe4, 0xf3, 0x27, 0x79, 0x0d, 0x74, 0xb7, 0xa0, 0x14, 0xaa, 0xb8, 0xfd, 0x71, 0xb1, 0x9a,
   0xfd, 0x69, 0x6d, 0xd1, 0xbb, 0x01, 0x60, 0xdb, 0x34, 0xb5, 0x41, 0x4e, 0x85, 0xdc, 0xbd, 0x59]

def clientId : String := "2ee4f327790d74b7"

def domain : String := "2ee4f327790d74b7.relay.localhost"

/-- What the key signs the domain with, in DER; its `s` is in the upper half. -/
def der : Bytes :=
  [0x30, 0x45, 0x02, 0x20, 0x03, 0xb1, 0x63, 0xf7, 0x0c, 0x35, 0x54, 0x63, 0xa1, 0xe7, 0xbe, 0xfb,
   0xe3, 0xcc, 0xe8, 0xbf, 0xc4, 0x9d, 0x4b, 0x8e, 0x45, 0xda, 0x20, 0x95, 0x15, 0xeb, 0xe3, 0x00,
   0x47, 0x2c, 0x59, 0xf9, 0x02, 0x21, 0x00, 0x9f, 0x8d, 0x0d, 0x77, 0x40, 0x95, 0x9d, 0xb3, 0x7b,
   0xac, 0x27, 0x2f, 0xf9, 0xfd, 0x10, 0xbc, 0xba, 0x06, 0xdd, 0xa7, 0x42, 0x40, 0xd0, 0x97, 0x68,
   0x04, 0xb4, 0x98, 0x34, 0xa8, 0x33, 0x9b]

/-- The same signature with a low `s`, as `r || s || v`. -/
def signature : Bytes :=
  [0x03, 0xb1, 0x63, 0xf7, 0x0c, 0x35, 0x54, 0x63, 0xa1, 0xe7, 0xbe, 0xfb, 0xe3, 0xcc, 0xe8, 0xbf,
   0xc4, 0x9d, 0x4b, 0x8e, 0x45, 0xda, 0x20, 0x95, 0x15, 0xeb, 0xe3, 0x00, 0x47, 0x2c, 0x59, 0xf9,
   0x60, 0x72, 0xf2, 0x87, 0xbf, 0x6a, 0x62, 0x4d, 0x84, 0x53, 0xd8, 0xd0, 0x06, 0x02, 0xef, 0x43,
   0x02, 0xe0, 0x1d, 0x06, 0x64, 0xd6, 0xcd, 0xed, 0x8b, 0xb5, 0x16, 0x2a, 0xc7, 0xba, 0xf1, 0xb6,
   0x01]

/-- `ecdsa::Signature`, of the signatures above. -/
inductive Sig
  | high
  | low
  deriving DecidableEq

def p256 : P256 where
  Key := Unit
  Sig := Sig
  Recoverable := Unit
  toSec1 _ compress := if compress then compressed else uncompressed
  fromSec1 bytes := if bytes = compressed ∨ bytes = uncompressed then some () else none
  fromDer bytes := if bytes = der then some .high else none
  normalizeS
    | .high => some .low
    | .low => none
  fromTrialRecovery _ message sig := if message = utf8 domain ∧ sig = .low then some () else none
  toBytes _ := signature
  tryFrom bytes := if bytes = signature then some () else none
  recoverVerifyingKey _ message := if message = utf8 domain then some () else none

/-- SHA-256 of the deployment source of 32 bytes `0x2a`, and the host. -/
def sourceDigest : Bytes :=
  [0x12, 0xda, 0x3c, 0x30, 0xf2, 0xd4, 0xbc, 0x87, 0xe4, 0x6a, 0x01, 0x67, 0xb5, 0x08, 0xc4, 0x69,
   0xce, 0x19, 0xe6, 0x2e, 0x02, 0x9d, 0x5e, 0x88, 0x0c, 0x6c, 0xac, 0x3a, 0xe9, 0x99, 0xc7, 0x1a]

/-- SHA-256 of 64 zero bytes and the host. -/
def openDigest : Bytes :=
  [0x46, 0x61, 0x48, 0xdf, 0x5c, 0xe1, 0xbd, 0x5c, 0x49, 0x1a, 0x97, 0xf2, 0x91, 0x9c, 0xa0, 0xb9,
   0x8c, 0xdc, 0x8d, 0xbf, 0xe9, 0x64, 0x17, 0xdd, 0xb3, 0x38, 0xa5, 0xf1, 0x6d, 0x56, 0x97, 0x3c]

def primitives : Primitives where
  toP256 := p256
  sha256 bytes :=
    if bytes = compressed then digest
    else if bytes = List.replicate 32 0x2a ++ utf8 "relay.localhost" then sourceDigest
    else if bytes = List.replicate 64 0 ++ utf8 "relay.localhost" then openDigest
    else []

end Sample

end QuicTunnel
