import QuicTunnel.Relay.Auth

/-!
# The client's identity, and that the relay derives the same

`build_connection` and `sign_recoverable` (`tunnel-client/src/client.rs`).  The client derives its
id from its public key and puts it in front of the suffix; the relay splits it off again and
compares it with the key it recovers from the signature.

`P256.Laws` is what is assumed of the curve, `TunnelKey.Signs` what is assumed of a key: that it
signs one message.  Both leave open which of the two SEC1 forms the key reports, and which of the
two `s` it signs with.
-/

namespace QuicTunnel.Client

/-! ### Keys -/

inductive KeyAlgorithm
  | ed25519
  | ecdsaP256
  deriving DecidableEq

structure TunnelKey where
  algorithm : KeyAlgorithm
  publicKeyRaw : Bytes
  sign : Bytes → Except String Bytes

/-- How the calls of `rcgen` and `rustls` end: the agent's certificate with its extension, the TLS
configuration, and the signing request for a domain.  What they return is not read here. -/
structure Certs where
  selfSigned : Option Bytes → Except String Unit
  clientTls : Except String Unit
  csr : String → Except String Unit

/-- The signing request, if one is needed. -/
def Certs.csrFor (certs : Certs) (needCsr : Bool) (domain : String) : Except String Unit :=
  if needCsr then certs.csr domain else .ok ()

structure Connection where
  clientId : String
  domain : String
  url : String
  identityKeypair : TunnelKey

/-- The error of `p256`. -/
def signatureError : String := "signature error"

/-- An error with the place it came from. -/
def orError {α : Type} (text : String) : Option α → Except String α
  | none => .error (text ++ signatureError)
  | some a => .ok a

section Client

variable (env : Primitives)

/-- The bytes whose hash is the id. -/
def idBytes (identityKeypair : TunnelKey) : Except String Bytes :=
  match identityKeypair.algorithm with
  | .ed25519 =>
    let len := identityKeypair.publicKeyRaw.length
    if len = 32 then .ok identityKeypair.publicKeyRaw
    else .error s!"Ed25519 identity public_key_raw() returned {len} bytes (expected 32)"
  | .ecdsaP256 => do
    let vk ← orError "parse identity pubkey for client_id: "
      (env.fromSec1 identityKeypair.publicKeyRaw)
    return env.toSec1 vk true

/-- `build_connection`. -/
def buildConnection (certs : Certs) (identityKeypair : TunnelKey) (domainSuffix : String)
    (certExtension : Option Bytes) (needCsr : Bool) : Except String Connection := do
  let bytes ← idBytes env identityKeypair
  let clientId := hexEncode ((env.sha256 bytes).take 8)
  let domain := s!"{clientId}.{domainSuffix}"
  let url := s!"https://{domain}"
  certs.selfSigned certExtension
  certs.clientTls
  certs.csrFor needCsr domain
  return { clientId, domain, url, identityKeypair }

/-- `sign_recoverable`. -/
def signRecoverable (identityKeypair : TunnelKey) (msg : Bytes) : Except String Bytes := do
  let der ← identityKeypair.sign msg
  let sig ← orError "parse identity signature DER: " (env.fromDer der)
  -- Trial recovery only matches the canonical low-s form.
  let sig := (env.normalizeS sig).getD sig
  let vk ← orError "identity pubkey: " (env.fromSec1 identityKeypair.publicKeyRaw)
  let recSig ← orError "trial-recovery for identity signature: "
    (env.fromTrialRecovery vk msg sig)
  let bytes := env.toBytes recSig
  if bytes.length ≠ 65 then
    .error s!"recoverable signature length {bytes.length} (expected 65)"
  else .ok bytes

end Client

/-! ### Working keys -/

/-- The key reports `vk` in one of the SEC1 forms. -/
def TunnelKey.Reports (key : TunnelKey) (p : P256) (vk : p.Key) : Prop :=
  key.algorithm = .ecdsaP256 ∧ ∃ compress, key.publicKeyRaw = p.toSec1 vk compress

/-- The key signs `msg` with the private key of `vk`. -/
def TunnelKey.Signs (key : TunnelKey) (p : P256) (Verifies : p.Key → Bytes → p.Sig → Prop)
    (vk : p.Key) (msg : Bytes) : Prop :=
  ∃ der sig, key.sign msg = .ok der ∧ p.fromDer der = some sig ∧ Verifies vk msg sig

section Agreement

variable {env : Primitives} {Verifies : env.Key → Bytes → env.Sig → Prop}

theorem idBytes_eq_ok (laws : P256.Laws env.toP256 Verifies) {key : TunnelKey} {vk : env.Key}
    (hkey : key.Reports env.toP256 vk) : idBytes env key = .ok (env.toSec1 vk true) := by
  obtain ⟨halg, compress, hraw⟩ := hkey
  simp only [idBytes, halg, hraw, laws.fromSec1_toSec1]
  rfl

theorem signRecoverable_eq_ok (laws : P256.Laws env.toP256 Verifies) {key : TunnelKey}
    {vk : env.Key} {msg : Bytes} (hkey : key.Reports env.toP256 vk)
    (hsign : key.Signs env.toP256 Verifies vk msg) :
    ∃ recSig, signRecoverable env key msg = .ok (env.toBytes recSig) ∧
      env.recoverVerifyingKey recSig msg = some vk := by
  obtain ⟨-, compress, hraw⟩ := hkey
  obtain ⟨der, sig, hder, hsig, hverifies⟩ := hsign
  obtain ⟨hlow, hnorm⟩ := laws.low hverifies
  obtain ⟨recSig, htrial, hrecover⟩ := laws.trialRecovery vk msg _ hlow hnorm
  refine ⟨recSig, ?_, hrecover⟩
  have hlen := laws.toBytes_length recSig
  simp only [signRecoverable, hder, hsig, hraw, laws.fromSec1_toSec1, bind, Except.bind, orError,
    htrial, hlen]
  rfl

/-- A computation that returns has returned at its first step. -/
theorem ok_of_bind {α β : Type} {x : Except String α} {f : α → Except String β} {b : β}
    (h : (x >>= f) = .ok b) : ∃ a, x = .ok a ∧ f a = .ok b := by
  cases x with
  | error e => cases h
  | ok a => exact ⟨a, rfl, h⟩

/-- What `build_connection` makes of a key: the id of its bytes, then the suffix. -/
theorem buildConnection_eq_ok {certs : Certs} {key : TunnelKey} {suffix : String}
    {extension : Option Bytes} {needCsr : Bool} {conn : Connection}
    (h : buildConnection env certs key suffix extension needCsr = .ok conn) :
    ∃ bytes, idBytes env key = .ok bytes ∧
      conn.clientId = hexEncode ((env.sha256 bytes).take 8) ∧
      conn.domain = s!"{conn.clientId}.{suffix}" ∧ conn.identityKeypair = key := by
  obtain ⟨bytes, hid, h⟩ := ok_of_bind h
  obtain ⟨-, -, h⟩ := ok_of_bind h
  obtain ⟨-, -, h⟩ := ok_of_bind h
  obtain ⟨-, -, h⟩ := ok_of_bind h
  cases h
  exact ⟨bytes, hid, rfl, rfl, rfl⟩

theorem toList_domain (clientId suffix : String) :
    (s!"{clientId}.{suffix}").toList = clientId.toList ++ '.' :: suffix.toList := by
  show (clientId ++ "." ++ suffix).toList = _
  simp

/-- The relay finds the client's id in front of the first dot. -/
theorem firstLabel_domain {clientId : String} (hdot : '.' ∉ clientId.toList) (suffix : String) :
    Relay.firstLabel s!"{clientId}.{suffix}" = some clientId := by
  rw [Relay.firstLabel, Relay.labels_of_dot (toList_domain clientId suffix),
    List.splitOn_eq_singleton hdot]
  simp

theorem allowedSuffix_domain (clientId : String) {suffix : String} {suffixes : List String}
    (h : suffixes = [] ∨ ∃ t ∈ suffixes, suffix = t ∨ ('.' :: t.toList) <:+ suffix.toList) :
    Relay.allowedSuffix s!"{clientId}.{suffix}" suffixes = true := by
  unfold Relay.allowedSuffix
  by_cases hempty : suffixes = []
  · rw [if_pos (by simpa using hempty)]
  · obtain ⟨t, ht, hsuffix⟩ := h.resolve_left hempty
    rw [if_neg (by simpa using hempty), List.any_eq_true]
    refine ⟨t, ht, List.isSuffixOf_iff_suffix.2 ?_⟩
    rw [toList_domain]
    rcases hsuffix with rfl | hsuffix
    · exact List.suffix_append _ _
    · exact (hsuffix.trans (List.suffix_cons _ _)).trans (List.suffix_append _ _)

/-- **Client and relay derive the same identity.** The domain of a connection fits the control
channel of either transport, and with the signature over it the relay recovers the client's key,
takes its id from the domain, and finds its suffix allowed. -/
theorem identity_agreement (env : Primitives) (Verifies : env.Key → Bytes → env.Sig → Prop)
    (laws : P256.Laws env.toP256 Verifies) (key : TunnelKey) (vk : env.Key)
    (hkey : key.Reports env.toP256 vk) (certs : Certs) (suffix : String)
    (extension : Option Bytes) (needCsr : Bool) (conn : Connection)
    (hconn : buildConnection env certs key suffix extension needCsr = .ok conn)
    (hsign : key.Signs env.toP256 Verifies vk (utf8 conn.domain))
    (hfits : (utf8 conn.domain).length ≤ maxCtrlFrame) (suffixes : List String)
    (hsuffixes : suffixes = [] ∨ ∃ t ∈ suffixes, suffix = t ∨ ('.' :: t.toList) <:+ suffix.toList) :
    (∃ wire, ctrlWrite (utf8 conn.domain) = .ok wire ∧
      ∀ rest fin, ctrlRead (wire ++ rest) fin = .frame (utf8 conn.domain) rest) ∧
    (∀ chunks : List Bytes, chunks.flatten = utf8 conn.domain →
      collectH2Body maxCtrlFrame [] (chunks.map some) = .ok (utf8 conn.domain)) ∧
    fromUtf8 (utf8 conn.domain) = some conn.domain ∧
    ∃ sig, signRecoverable env conn.identityKeypair (utf8 conn.domain) = .ok sig ∧
      sig.length = 65 ∧
      Relay.recoverIdentityPubkey env conn.domain sig = some (env.toSec1 vk true) ∧
      Relay.firstLabel conn.domain = some conn.clientId ∧
      Relay.allowedSuffix conn.domain suffixes = true := by
  obtain ⟨bytes, hid, hclient, hdomain, hidentity⟩ := buildConnection_eq_ok hconn
  cases (idBytes_eq_ok laws hkey).symm.trans hid
  obtain ⟨recSig, hsig, hrecover⟩ := signRecoverable_eq_ok laws hkey hsign
  have hlabel : Relay.firstLabel conn.domain = some conn.clientId := by
    rw [hdomain]
    exact firstLabel_domain (hclient ▸ dot_notMem_hexEncode _) suffix
  have hwire : ctrlWrite (utf8 conn.domain) =
      .ok (toBeBytes (utf8 conn.domain).length ++ utf8 conn.domain) := if_pos hfits
  refine ⟨⟨_, hwire, ctrlRead_ctrlWrite hwire⟩, ?_, fromUtf8_utf8 _, env.toBytes recSig, ?_,
    laws.toBytes_length recSig, ?_, hlabel, ?_⟩
  · intro chunks hchunks
    rw [collectH2Body_eq_ok (by rw [hchunks]; simpa using hfits), hchunks]
    rfl
  · rw [hidentity]
    exact hsig
  · simp only [Relay.recoverIdentityPubkey, laws.tryFrom_toBytes, hrecover, hlabel,
      Option.bind_some]
    exact if_pos hclient.symm
  · rw [hdomain]
    exact allowedSuffix_domain conn.clientId hsuffixes

end Agreement

/-- The sample key, which reports the uncompressed form and signs with the upper `s`. -/
def sampleKey : TunnelKey where
  algorithm := .ecdsaP256
  publicKeyRaw := Sample.uncompressed
  sign msg := if msg = utf8 Sample.domain then .ok Sample.der else .error "not the sample domain"

def sampleCerts : Certs := ⟨fun _ => .ok (), .ok (), fun _ => .ok ()⟩

theorem sample_laws :
    P256.Laws Sample.p256 (fun _ msg _ => msg = utf8 Sample.domain) where
  fromSec1_toSec1 vk compress := by
    cases compress <;> simp [Sample.p256] <;> rfl
  normalizeS vk msg sig sig' h hnorm := by
    cases sig with
    | high => cases hnorm; exact ⟨h, rfl⟩
    | low => cases hnorm
  trialRecovery vk msg sig h hnorm := by
    cases sig with
    | high => cases hnorm
    | low => exact ⟨(), if_pos ⟨h, rfl⟩, if_pos h⟩
  toBytes_length _ := rfl
  tryFrom_toBytes _ := by
    simp [Sample.p256]
    rfl

theorem identity_agreement_relay_localhost :
    ∃ conn, buildConnection Sample.primitives sampleCerts sampleKey "relay.localhost" none true =
        .ok conn ∧ conn.clientId = Sample.clientId ∧ conn.domain = Sample.domain ∧
      ∃ sig, signRecoverable Sample.primitives conn.identityKeypair (utf8 conn.domain) = .ok sig ∧
        sig.length = 65 ∧
        Relay.recoverIdentityPubkey Sample.primitives conn.domain sig = some Sample.compressed ∧
        Relay.firstLabel conn.domain = some conn.clientId ∧
        Relay.allowedSuffix conn.domain ["example.org", "localhost"] = true := by
  have hkey : sampleKey.Reports Sample.p256 () := ⟨rfl, false, rfl⟩
  have hsign : sampleKey.Signs Sample.p256 (fun _ msg _ => msg = utf8 Sample.domain) ()
      (utf8 Sample.domain) :=
    ⟨Sample.der, .high, by simp [sampleKey], by simp [Sample.p256], rfl⟩
  have hclient : hexEncode ((Sample.primitives.sha256 Sample.compressed).take 8) =
      Sample.clientId := by decide +kernel
  have hconn : buildConnection Sample.primitives sampleCerts sampleKey "relay.localhost" none true =
      .ok ⟨Sample.clientId, Sample.domain, "https://" ++ Sample.domain, sampleKey⟩ := by
    rw [buildConnection, idBytes_eq_ok sample_laws hkey]
    show Except.ok (Connection.mk (hexEncode ((Sample.primitives.sha256 Sample.compressed).take 8))
      (hexEncode ((Sample.primitives.sha256 Sample.compressed).take 8) ++ "." ++ "relay.localhost")
      ("https://" ++ (hexEncode ((Sample.primitives.sha256 Sample.compressed).take 8) ++ "." ++
        "relay.localhost")) sampleKey) = _
    rw [hclient]
    rfl
  refine ⟨_, hconn, rfl, rfl, ?_⟩
  exact (identity_agreement Sample.primitives _ sample_laws sampleKey () hkey sampleCerts
    "relay.localhost" none true _ hconn hsign (by decide) ["example.org", "localhost"]
    (.inr ⟨"localhost", by decide, .inr (by decide)⟩)).2.2.2

end QuicTunnel.Client
