import QuicTunnel.Common.Codec
import QuicTunnel.Relay.Registration

/-!
# The two listeners

`handle_quic_connection`, `quic_auth_exchange`, `quic_acme_wait` (`tunnel-server/src/quic.rs`) and
`handle_h2_connection`, `h2_auth_exchange`, `h2_read_key_auth`, `h2_acme_wait`
(`tunnel-server/src/h2_listener.rs`), each from its own source and from first read to verdict, on
connections that neither time out nor fail.  QUIC reads frames off the segments of one stream, H2
collects the chunks of one body after the other.

Where the peer sends the same byte strings the two agree, however they are split; and each is what a
run of the relay's handler of that transport comes to.
-/

namespace QuicTunnel.Relay

open Codec Segments Transition

/-- How a listener ends with a peer. -/
inductive Outcome
  | registered (id : String)
  /-- Registered after an ACME wait. -/
  | registeredAfterWait (id : String)
  | refused (verdict : Verdict)
  deriving DecidableEq

/-- What `txt_lookup` finds under a name; `none` is an error. -/
abbrev TxtLookup := String → Option (List Bytes)

/-! ### QUIC -/

/-- `quic_auth_exchange`: the `client_id`, and what is left of the control stream. -/
def quicAuthExchange (env : Env) (domainSuffixes : List String) (authToken : Option Bytes)
    (resolver : TxtLookup) (ctrlRecv : List Bytes) : Except Verdict (String × List Bytes) :=
  match ctrlReadFrom ctrlRecv with
  | (.error _, _) => .error .dropped
  | (.ok domainBytes, ctrlRecv) =>
    match fromUtf8 domainBytes with
    | none => .error .dropped
    | some domain =>
      match ctrlReadFrom ctrlRecv with
      | (.error _, _) => .error .dropped
      | (.ok sigBytes, ctrlRecv) =>
        match recoverIdentityPubkey env.toPrimitives domain sigBytes with
        | none => .error (.rejected "unauthorized: identity signature")
        | some _ =>
          match firstLabel domain with
          | none => .error .dropped
          | some id =>
            if allowedSuffix domain domainSuffixes then
              match authToken with
              | none => .ok (id, ctrlRecv)
              | some deploymentSource =>
                let host := hostOf domain
                match resolver (txtName host) with
                | none => .error .dropped
                | some values =>
                  if txtAuthorizes env.toPrimitives values deploymentSource host then
                    .ok (id, ctrlRecv)
                  else
                    .error (.rejected "unauthorized: deployment source not authorized by TXT")
            else .error (.rejected "unauthorized: domain suffix not allowed")

/-- `quic_acme_wait`, once the ack is written: a done signal that cannot be read is only logged. -/
def quicAcmeWait (ctrlRecv : List Bytes) : Option Unit :=
  match ctrlReadFrom ctrlRecv with
  | (.error _, _) => some ()
  | (.ok _, _) => some ()

/-- `handle_quic_connection`, from the peer's certificates and its control stream. -/
def handleQuicConnection (env : Env) (cfg : Config) (resolver : TxtLookup)
    (peerCerts : Option (List Bytes)) (ctrlRecv : List Bytes) : Outcome :=
  match peerCerts.bind List.head? with
  | none => .refused .dropped
  | some firstCert =>
    let customData := env.customDataFromCert firstCert
    let authToken : Except Verdict (Option Bytes) :=
      match cfg.authHandler with
      | none => .ok none
      | some handler =>
        match env.pubkeyFromCert firstCert with
        | none => .error (.rejected "unauthorized: client certificate")
        | some pubkey =>
          match handler pubkey customData with
          | .ok token => .ok token
          | .error _ => .error (.rejected "unauthorized: auth handler rejected")
    match authToken with
    | .error verdict => .refused verdict
    | .ok authToken =>
      match quicAuthExchange env cfg.domainSuffixes authToken resolver ctrlRecv with
      | .error verdict => .refused verdict
      | .ok (id, ctrlRecv) =>
        match ctrlReadFrom ctrlRecv with
        | (.error _, _) => .refused .dropped
        | (.ok keyAuth, ctrlRecv) =>
          if keyAuth.isEmpty then .registered id
          else
            match quicAcmeWait ctrlRecv with
            | none => .refused .dropped
            | some () => .registeredAfterWait id

/-! ### H2 -/

/-- What the peer answers to a control request: the chunks of the body. -/
abbrev SendRequest := String → List Bytes

/-- A control request, and its collected body. -/
def SendRequest.get (sender : SendRequest) (uri : String) : Except String Bytes :=
  collectH2Body maxCtrlFrame [] ((sender uri).map some)

/-- `h2_auth_exchange`. -/
def h2AuthExchange (env : Env) (domainSuffixes : List String) (authToken : Option Bytes)
    (resolver : TxtLookup) (sender : SendRequest) : Except Verdict String :=
  match sender.get "/_ctrl/domain" with
  | .error _ => .error .dropped
  | .ok body =>
    match fromUtf8 body with
    | none => .error .dropped
    | some domain =>
      match sender.get "/_ctrl/sig" with
      | .error _ => .error .dropped
      | .ok sigBytes =>
        match recoverIdentityPubkey env.toPrimitives domain sigBytes with
        | none => .error (.rejected "unauthorized: identity signature")
        | some _ =>
          match firstLabel domain with
          | none => .error .dropped
          | some id =>
            if allowedSuffix domain domainSuffixes then
              match authToken with
              | none => .ok id
              | some deploymentSource =>
                let host := hostOf domain
                match resolver (txtName host) with
                | none => .error .dropped
                | some values =>
                  if txtAuthorizes env.toPrimitives values deploymentSource host then .ok id
                  else
                    .error (.rejected "unauthorized: deployment source not authorized by TXT")
            else .error (.rejected "unauthorized: domain suffix not allowed")

/-- `h2_read_key_auth`. -/
def h2ReadKeyAuth (sender : SendRequest) : Option Bytes := (sender.get "/_ctrl/key_auth").toOption

/-- `h2_acme_wait`, once `/_ctrl/done` is sent: a response that fails is only logged. -/
def h2AcmeWait (done : Except String Unit) : Option Unit :=
  match done with
  | .error _ => some ()
  | .ok () => some ()

/-- `handle_h2_connection`, from the peer's certificates and its answers; `done` is how the response
to `/_ctrl/done` ends. -/
def handleH2Connection (env : Env) (cfg : Config) (resolver : TxtLookup)
    (peerCertificates : Option (List Bytes)) (sender : SendRequest) (done : Except String Unit) :
    Outcome :=
  match peerCertificates.bind List.head? with
  | none => .refused .dropped
  | some peerCert =>
    let customData := env.customDataFromCert peerCert
    let authToken : Except Verdict (Option Bytes) :=
      match cfg.authHandler with
      | none => .ok none
      | some handler =>
        match env.pubkeyFromCert peerCert with
        | none => .error (.rejected "unauthorized: client certificate")
        | some pubkey =>
          match handler pubkey customData with
          | .ok token => .ok token
          | .error _ => .error (.rejected "unauthorized: auth handler rejected")
    match authToken with
    | .error verdict => .refused verdict
    | .ok authToken =>
      match h2AuthExchange env cfg.domainSuffixes authToken resolver sender with
      | .error verdict => .refused verdict
      | .ok id =>
        match h2ReadKeyAuth sender with
        | none => .refused .dropped
        | some keyAuth =>
          if keyAuth.isEmpty then .registered id
          else
            match h2AcmeWait done with
            | none => .refused .dropped
            | some () => .registeredAfterWait id

/-! ### What both check -/

/-- What becomes of a signature, in terms of the checks of the relay's handlers. -/
def checked (env : Env) (cfg : Config) (authToken : Option Bytes) (resolver : TxtLookup)
    (domain : String) (sigBytes : Bytes) : Except Verdict String :=
  match checkIdentity env cfg domain sigBytes with
  | .error verdict => .error verdict
  | .ok id =>
    match authToken with
    | none => .ok id
    | some source =>
      match checkTxt env domain source (resolver (txtName (hostOf domain))) with
      | .error verdict => .error verdict
      | .ok () => .ok id

theorem quicAuthExchange_eq (env : Env) (cfg : Config) (authToken : Option Bytes)
    (resolver : TxtLookup) (ctrlRecv : List Bytes) :
    quicAuthExchange env cfg.domainSuffixes authToken resolver ctrlRecv =
      match ctrlReadFrom ctrlRecv with
      | (.error _, _) => .error .dropped
      | (.ok domainBytes, ctrlRecv) =>
        match fromUtf8 domainBytes with
        | none => .error .dropped
        | some domain =>
          match ctrlReadFrom ctrlRecv with
          | (.error _, _) => .error .dropped
          | (.ok sigBytes, ctrlRecv) =>
            (checked env cfg authToken resolver domain sigBytes).map (·, ctrlRecv) := by
  unfold quicAuthExchange
  rcases ctrlReadFrom ctrlRecv with ⟨_ | domainBytes, ctrlRecv⟩
  · rfl
  simp only
  cases fromUtf8 domainBytes with
  | none => rfl
  | some domain =>
    simp only
    rcases ctrlReadFrom ctrlRecv with ⟨_ | sigBytes, ctrlRecv⟩
    · rfl
    · simp only [checked, checkIdentity]
      cases recoverIdentityPubkey env.toPrimitives domain sigBytes with
      | none => rfl
      | some pubkey =>
        cases firstLabel domain with
        | none => rfl
        | some id =>
          simp only
          split_ifs
          · cases authToken with
            | none => rfl
            | some source =>
              simp only [checkTxt]
              cases resolver (txtName (hostOf domain)) with
              | none => rfl
              | some values =>
                simp only
                split_ifs <;> rfl
          · rfl

theorem h2AuthExchange_eq (env : Env) (cfg : Config) (authToken : Option Bytes)
    (resolver : TxtLookup) (sender : SendRequest) :
    h2AuthExchange env cfg.domainSuffixes authToken resolver sender =
      match sender.get "/_ctrl/domain" with
      | .error _ => .error .dropped
      | .ok domainBytes =>
        match fromUtf8 domainBytes with
        | none => .error .dropped
        | some domain =>
          match sender.get "/_ctrl/sig" with
          | .error _ => .error .dropped
          | .ok sigBytes => checked env cfg authToken resolver domain sigBytes := by
  unfold h2AuthExchange
  rcases sender.get "/_ctrl/domain" with _ | domainBytes
  · rfl
  simp only
  cases fromUtf8 domainBytes with
  | none => rfl
  | some domain =>
    simp only
    rcases sender.get "/_ctrl/sig" with _ | sigBytes
    · rfl
    · simp only [checked, checkIdentity]
      cases recoverIdentityPubkey env.toPrimitives domain sigBytes with
      | none => rfl
      | some pubkey =>
        cases firstLabel domain with
        | none => rfl
        | some id =>
          simp only
          split_ifs
          · cases authToken with
            | none => rfl
            | some source =>
              simp only [checkTxt]
              cases resolver (txtName (hostOf domain)) with
              | none => rfl
              | some values =>
                simp only
                split_ifs <;> rfl
          · rfl

/-- Either wait ends with the registration. -/
theorem quicAcmeWait_eq (ctrlRecv : List Bytes) : quicAcmeWait ctrlRecv = some () := by
  unfold quicAcmeWait
  split <;> rfl

theorem h2AcmeWait_eq (done : Except String Unit) : h2AcmeWait done = some () := by
  cases done <;> rfl

/-! ### The same byte strings -/

/-- `wire` is `payload` with its length before it, as four big-endian bytes. -/
def Framed (payload wire : Bytes) : Prop :=
  ∃ len : Bytes, len.length = 4 ∧ fromBeBytes len = payload.length ∧ wire = len ++ payload

/-- A frame within the limit is read whole. -/
theorem Framed.read {payload wire rest : Bytes} {segments : List Bytes} (h : Framed payload wire)
    (hsegments : segments.flatten = wire ++ rest) (hle : payload.length ≤ maxCtrlFrame) :
    ∃ left, ctrlReadFrom segments = (.ok payload, left) ∧ left.flatten = rest := by
  obtain ⟨len, hlen, hvalue, rfl⟩ := h
  have hframe : len ++ payload = frame payload := by
    rw [frame, ← hvalue, toBeBytes_fromBeBytes hlen]
  rw [hframe] at hsegments
  exact ctrlReadFrom_ok_iff.2 (ctrlRead_frame_iff.2 ⟨hle, hsegments⟩)

/-- A frame above the limit is an error. -/
theorem Framed.read_error {payload wire rest : Bytes} {segments : List Bytes}
    (h : Framed payload wire) (hsegments : segments.flatten = wire ++ rest)
    (hlt : maxCtrlFrame < payload.length) :
    ∃ e left, ctrlReadFrom segments = (.error e, left) := by
  obtain ⟨len, hlen, hvalue, rfl⟩ := h
  have htake : segments.flatten.take 4 = len := by
    rw [hsegments, List.append_assoc, List.take_append_of_le_length (by omega),
      List.take_of_length_le (by omega)]
  have h4 : 4 ≤ segments.flatten.length := by
    rw [hsegments, List.length_append, List.length_append]
    omega
  obtain ⟨left, hread, -⟩ := ctrlReadFrom_oversized h4 (by rw [htake]) (hvalue ▸ hlt)
  exact ⟨_, left, hread⟩

theorem SendRequest.get_eq_ok {sender : SendRequest} {uri : String} {body : Bytes}
    (h : (sender uri).flatten = body) (hle : body.length ≤ maxCtrlFrame) :
    sender.get uri = .ok body := by
  subst h
  exact collectH2Body_eq_ok (by simpa using hle)

theorem SendRequest.get_eq_error {sender : SendRequest} {uri : String} {body : Bytes}
    (h : (sender uri).flatten = body) (hlt : maxCtrlFrame < body.length) :
    ∃ e, sender.get uri = .error e := by
  subst h
  exact collectH2Body_eq_error hlt

/-- What a peer sends on the two transports is the same three byte strings. -/
structure SameBytes (segments : List Bytes) (sender : SendRequest) (domain sig keyAuth : Bytes)
    (rest : Bytes) : Prop where
  stream : ∃ w₁ w₂ w₃, Framed domain w₁ ∧ Framed sig w₂ ∧ Framed keyAuth w₃ ∧
    segments.flatten = w₁ ++ (w₂ ++ (w₃ ++ rest))
  domain : (sender "/_ctrl/domain").flatten = domain
  sig : (sender "/_ctrl/sig").flatten = sig
  keyAuth : (sender "/_ctrl/key_auth").flatten = keyAuth

/-- The two exchanges end alike, and QUIC has then read the first two frames. -/
theorem authExchange_eq {segments : List Bytes} {sender : SendRequest}
    {domainBytes sigBytes w₁ w₂ after : Bytes} (h₁ : Framed domainBytes w₁)
    (h₂ : Framed sigBytes w₂) (hstream : segments.flatten = w₁ ++ (w₂ ++ after))
    (hdomain : (sender "/_ctrl/domain").flatten = domainBytes)
    (hsig : (sender "/_ctrl/sig").flatten = sigBytes) (env : Env) (cfg : Config)
    (authToken : Option Bytes) (resolver : TxtLookup) :
    (∃ verdict, quicAuthExchange env cfg.domainSuffixes authToken resolver segments =
        .error verdict ∧
      h2AuthExchange env cfg.domainSuffixes authToken resolver sender = .error verdict) ∨
    ∃ id left, quicAuthExchange env cfg.domainSuffixes authToken resolver segments =
        .ok (id, left) ∧
      h2AuthExchange env cfg.domainSuffixes authToken resolver sender = .ok id ∧
      left.flatten = after := by
  rw [quicAuthExchange_eq, h2AuthExchange_eq]
  rcases Nat.lt_or_ge maxCtrlFrame domainBytes.length with hlong | hle
  · obtain ⟨e, left, hread⟩ := h₁.read_error hstream hlong
    obtain ⟨e', hget⟩ := SendRequest.get_eq_error hdomain hlong
    exact .inl ⟨.dropped, by rw [hread], by rw [hget]⟩
  obtain ⟨left₁, hread₁, hleft₁⟩ := h₁.read hstream hle
  simp only [hread₁, SendRequest.get_eq_ok hdomain hle]
  cases fromUtf8 domainBytes with
  | none => exact .inl ⟨.dropped, rfl, rfl⟩
  | some domain =>
    simp only
    rcases Nat.lt_or_ge maxCtrlFrame sigBytes.length with hlong | hle'
    · obtain ⟨e, left, hread⟩ := h₂.read_error hleft₁ hlong
      obtain ⟨e', hget⟩ := SendRequest.get_eq_error hsig hlong
      exact .inl ⟨.dropped, by rw [hread], by rw [hget]⟩
    obtain ⟨left₂, hread₂, hleft₂⟩ := h₂.read hleft₁ hle'
    simp only [hread₂, SendRequest.get_eq_ok hsig hle']
    cases checked env cfg authToken resolver domain sigBytes with
    | error verdict => exact .inl ⟨verdict, rfl, rfl⟩
    | ok id => exact .inr ⟨id, left₂, rfl, rfl, hleft₂⟩

/-- **Both transports give the same verdict**, whatever the peer sends and however it is split. -/
theorem handle_eq (env : Env) (cfg : Config) (resolver : TxtLookup)
    (peerCerts : Option (List Bytes)) (domain sig keyAuth rest : Bytes) (segments : List Bytes)
    (sender : SendRequest) (done : Except String Unit)
    (h : SameBytes segments sender domain sig keyAuth rest) :
    handleQuicConnection env cfg resolver peerCerts segments =
      handleH2Connection env cfg resolver peerCerts sender done := by
  obtain ⟨⟨w₁, w₂, w₃, h₁, h₂, h₃, hstream⟩, hdomain, hsig, hkeyAuth⟩ := h
  unfold handleQuicConnection handleH2Connection
  cases peerCerts.bind List.head? with
  | none => rfl
  | some cert =>
    simp only
    split
    · rfl
    · rename_i authToken _
      rcases authExchange_eq h₁ h₂ hstream hdomain hsig env cfg authToken resolver with
        ⟨verdict, hquic, hh2⟩ | ⟨id, left, hquic, hh2, hleft⟩
      · rw [hquic, hh2]
      · rw [hquic, hh2]
        simp only [h2ReadKeyAuth]
        rcases Nat.lt_or_ge maxCtrlFrame keyAuth.length with hlong | hle
        · obtain ⟨e, left', hread⟩ := h₃.read_error hleft hlong
          obtain ⟨e', hget⟩ := SendRequest.get_eq_error hkeyAuth hlong
          rw [hread, hget]
          rfl
        · obtain ⟨left', hread, -⟩ := h₃.read hleft hle
          rw [hread, SendRequest.get_eq_ok hkeyAuth hle]
          simp only [quicAcmeWait_eq, h2AcmeWait_eq]
          rfl

/-- What the sample client sends on QUIC, cut inside the first length and inside the signature. -/
def sampleStream : List Bytes :=
  [[0, 0], [0, 32] ++ utf8 Sample.domain ++ toBeBytes 65 ++ Sample.signature.take 20, [],
    Sample.signature.drop 20 ++ toBeBytes 16 ++ utf8 "token.thumbprint" ++ toBeBytes 4]

/-- What it answers on H2, with an empty chunk before each half of the domain. -/
def sampleSender : SendRequest
  | "/_ctrl/domain" =>
    [[], (utf8 Sample.domain).take 7, [], (utf8 Sample.domain).drop 7]
  | "/_ctrl/sig" => [Sample.signature]
  | "/_ctrl/key_auth" => [utf8 "token.thumbprint"]
  | _ => []

theorem handle_eq_sample :
    handleQuicConnection sampleEnv sampleConfig (fun _ => some sampleTxt) (some [sampleCert])
        sampleStream = .registeredAfterWait Sample.clientId ∧
      handleH2Connection sampleEnv sampleConfig (fun _ => some sampleTxt) (some [sampleCert])
        sampleSender (.error "stream error") = .registeredAfterWait Sample.clientId := by
  have hh2 : handleH2Connection sampleEnv sampleConfig (fun _ => some sampleTxt)
      (some [sampleCert]) sampleSender (.error "stream error") =
        .registeredAfterWait Sample.clientId := by decide +kernel
  refine ⟨?_, hh2⟩
  rw [handle_eq sampleEnv sampleConfig (fun _ => some sampleTxt) (some [sampleCert])
    (utf8 Sample.domain) Sample.signature (utf8 "token.thumbprint") (toBeBytes 4) sampleStream
    sampleSender (.error "stream error")
    ⟨⟨_, _, _, ⟨toBeBytes 32, rfl, by decide +kernel, rfl⟩,
      ⟨toBeBytes 65, rfl, by decide +kernel, rfl⟩, ⟨toBeBytes 16, rfl, by decide +kernel, rfl⟩,
      by decide +kernel⟩, by decide +kernel, by decide +kernel, by decide +kernel⟩]
  exact hh2

/-! ### Runs of the handlers -/

/-- What a handler has decided when its exchange is over. -/
def Pc.outcome? : Pc → Option Outcome
  | .register id => some (.registered id)
  | .insertPending id => some (.registeredAfterWait id)
  | .gone verdict => some (.refused verdict)
  | _ => none

/-- Some inputs take a handler to its verdict. -/
def Conn.Ends (env : Env) (cfg : Config) (c : Conn) (outcome : Outcome) : Prop :=
  ∃ inputs c', runs (fun c i => (c.step env cfg 0 i).map Prod.fst) c inputs = some c' ∧
    c'.pc.outcome? = some outcome

namespace Conn

variable {env : Env} {cfg : Config} {c c' : Conn} {outcome : Outcome}

theorem Ends.here (h : c.pc.outcome? = some outcome) : c.Ends env cfg outcome := ⟨[], c, rfl, h⟩

theorem Ends.step {i : Input} (h : c'.Ends env cfg outcome)
    (hstep : (c.step env cfg 0 i).map Prod.fst = some c') : c.Ends env cfg outcome := by
  obtain ⟨inputs, d, hruns, houtcome⟩ := h
  exact ⟨i :: inputs, d, by rw [runs_cons, hstep]; exact hruns, houtcome⟩

theorem Ends.of_eq {outcome' : Outcome} (h : c.Ends env cfg outcome) (heq : outcome = outcome') :
    c.Ends env cfg outcome' := heq ▸ h

/-- The inputs that end a read without a loss. -/
def isRead : Input → Bool
  | .poll | .response _ => true
  | _ => false

/-- A read takes a handler to what it does with the result. -/
theorem step_of_read {i : Input} {result : Except String Bytes} (hi : isRead i = true)
    (hread : c.read i = some (result, c')) :
    (c.pc = .readDomain → (c.step env cfg 0 i).map Prod.fst = some (c'.onDomain result)) ∧
    (∀ domain, c.pc = .readSig domain →
      (c.step env cfg 0 i).map Prod.fst = some (c'.onSig env cfg domain result)) ∧
    ∀ id, c.pc = .readKeyAuth id →
      (c.step env cfg 0 i).map Prod.fst = some (c'.onKeyAuth id result) := by
  cases i with
  | poll | response =>
    refine ⟨fun hpc => ?_, fun domain hpc => ?_, fun id hpc => ?_⟩ <;>
      simp only [Conn.step, Conn.authStep, hpc, hread, Option.map_some]
  | _ => cases hi

/-- The control stream of a QUIC connection has arrived in full. -/
structure Arrived (c : Conn) (segments : List Bytes) : Prop where
  transport : c.transport = .quic
  buffer : c.buffer = segments.flatten
  fin : c.fin = true

theorem Arrived.read {segments left : List Bytes} {result : Except String Bytes}
    (h : c.Arrived segments) (hread : ctrlReadFrom segments = (result, left)) :
    ∃ buffer, c.read .poll = some (result, { c with buffer := buffer }) ∧
      (result.isOk = true → buffer = left.flatten) := by
  obtain ⟨transport, pc, buffer, fin, seen⟩ := c
  obtain ⟨rfl, rfl, rfl⟩ := h
  have hspec := ctrlReadFrom_eq segments
  split at hspec
  · exact hspec.elim
  · rename_i e he
    rw [hread] at hspec
    subst hspec
    exact ⟨segments.flatten, by simp only [Conn.read, he], nofun⟩
  · rename_i payload rest hframe
    obtain ⟨left', hread', rfl⟩ := hspec
    cases hread.symm.trans hread'
    exact ⟨left.flatten, by simp only [Conn.read, hframe], fun _ => rfl⟩

theorem read_h2 (hc : c.transport = .h2) (sender : SendRequest) (uri : String) :
    c.read (.response ((sender uri).map some)) = some (sender.get uri, c) := by
  simp only [Conn.read, hc, SendRequest.get]

/-- What a listener makes of the read of the key authorization. -/
def keyAuthOutcome (id : String) : Except String Bytes → Outcome
  | .error _ => .refused .dropped
  | .ok keyAuth => if keyAuth.isEmpty then .registered id else .registeredAfterWait id

theorem outcome_onKeyAuth (c : Conn) (id : String) (result : Except String Bytes) :
    (c.onKeyAuth id result).pc.outcome? = some (keyAuthOutcome id result) := by
  cases result with
  | error e => rfl
  | ok keyAuth =>
    simp only [Conn.onKeyAuth, keyAuthOutcome]
    split_ifs <;> rfl

/-- The bytes of the control stream arrive, and it ends. -/
theorem Ends.arrive (segments : List Bytes) (hfin : c.fin = false)
    (h : Ends env cfg { c with buffer := c.buffer ++ segments.flatten, fin := true } outcome) :
    c.Ends env cfg outcome := by
  induction segments generalizing c with
  | nil =>
    refine Ends.step (i := .fin) ?_ rfl
    simpa using h
  | cons segment segments ih =>
    have hstep : (c.step env cfg 0 (.data segment)).map Prod.fst =
        some { c with buffer := c.buffer ++ segment } := by
      simp only [Conn.step, hfin, Bool.false_eq_true, if_false, Option.map_some]
    refine Ends.step ?_ hstep
    exact ih hfin (by simpa [List.append_assoc] using h)

theorem ends_keyAuth_quic {segments : List Bytes} {id : String} (h : c.Arrived segments)
    (hpc : c.pc = .readKeyAuth id) :
    c.Ends env cfg (keyAuthOutcome id (ctrlReadFrom segments).1) := by
  rcases hread : ctrlReadFrom segments with ⟨result, left⟩
  obtain ⟨buffer, hpoll, -⟩ := h.read hread
  exact Ends.step (.here (outcome_onKeyAuth _ id result)) ((step_of_read rfl hpoll).2.2 id hpc)

/-- What a listener makes of the read of the signature, with the read that follows. -/
def sigOutcome (env : Env) (cfg : Config) (authToken : Option Bytes) (resolver : TxtLookup)
    (domain : String) (keyAuth : Except String Bytes) : Except String Bytes → Outcome
  | .error _ => .refused .dropped
  | .ok sigBytes =>
    match checked env cfg authToken resolver domain sigBytes with
    | .error verdict => .refused verdict
    | .ok id => keyAuthOutcome id keyAuth

/-- Once it has the signature, a handler goes on to the key authorization or is refused. -/
theorem ends_onSig (resolver : TxtLookup) (domain : String) (sig : Except String Bytes)
    (keyAuth : Except String Bytes)
    (hkeyAuth : sig.isOk = true → ∀ id seen,
      Ends env cfg { c with seen := seen, pc := .readKeyAuth id } (keyAuthOutcome id keyAuth)) :
    Ends env cfg (c.onSig env cfg domain sig)
      (sigOutcome env cfg c.seen.authToken resolver domain keyAuth sig) := by
  cases sig with
  | error e => exact .here rfl
  | ok sigBytes =>
    simp only [Conn.onSig, sigOutcome, checked]
    cases checkIdentity env cfg domain sigBytes with
    | error verdict => exact .here rfl
    | ok id =>
      simp only
      cases htoken : c.seen.authToken with
      | none => exact hkeyAuth rfl id _
      | some source =>
        refine Ends.step (i := .txtAnswer (resolver (txtName (hostOf domain)))) ?_ rfl
        simp only [Conn.onTxt]
        cases checkTxt env domain source (resolver (txtName (hostOf domain))) with
        | error verdict => exact .here rfl
        | ok u => exact hkeyAuth rfl id _

theorem ends_sig_quic {segments : List Bytes} {domain : String} (h : c.Arrived segments)
    (hpc : c.pc = .readSig domain) (resolver : TxtLookup) :
    c.Ends env cfg (sigOutcome env cfg c.seen.authToken resolver domain
      (ctrlReadFrom (ctrlReadFrom segments).2).1 (ctrlReadFrom segments).1) := by
  rcases hread : ctrlReadFrom segments with ⟨sig, left⟩
  obtain ⟨buffer, hpoll, hbuffer⟩ := h.read hread
  refine Ends.step ?_ ((step_of_read rfl hpoll).2.1 domain hpc)
  exact ends_onSig (c := { c with buffer := buffer }) resolver domain sig _ fun hok id seen =>
    ends_keyAuth_quic ⟨h.transport, hbuffer hok, h.fin⟩ rfl

/-- A QUIC handler whose control stream has arrived comes to the verdict of its listener. -/
theorem ends_quic {segments : List Bytes} (h : c.Arrived segments) (hpc : c.pc = .readDomain)
    (resolver : TxtLookup) :
    c.Ends env cfg
      (match quicAuthExchange env cfg.domainSuffixes c.seen.authToken resolver segments with
      | .error verdict => .refused verdict
      | .ok (id, ctrlRecv) => keyAuthOutcome id (ctrlReadFrom ctrlRecv).1) := by
  rw [quicAuthExchange_eq]
  rcases hread : ctrlReadFrom segments with ⟨domainBytes | domainBytes, left⟩
  all_goals
    obtain ⟨buffer, hpoll, hbuffer⟩ := h.read hread
    refine Ends.step ?_ ((step_of_read rfl hpoll).1 hpc)
  · exact .here rfl
  simp only [Conn.onDomain]
  cases fromUtf8 domainBytes with
  | none => exact .here rfl
  | some domain =>
    have hend : Ends env cfg _ _ := ends_sig_quic (c := { c with
      buffer := buffer, seen.domainBytes := domainBytes, pc := .readSig domain })
        ⟨h.transport, hbuffer rfl, h.fin⟩ rfl resolver
    refine hend.of_eq ?_
    simp only
    rcases ctrlReadFrom left with ⟨sig | sig, left'⟩
    · rfl
    · simp only [sigOutcome]
      cases checked env cfg c.seen.authToken resolver domain sig <;> rfl

theorem ends_keyAuth_h2 {id : String} (hc : c.transport = .h2) (hpc : c.pc = .readKeyAuth id)
    (sender : SendRequest) :
    c.Ends env cfg (keyAuthOutcome id (sender.get "/_ctrl/key_auth")) :=
  Ends.step (.here (outcome_onKeyAuth c id _)) ((step_of_read rfl (read_h2 hc sender _)).2.2 id hpc)

theorem ends_sig_h2 {domain : String} (hc : c.transport = .h2) (hpc : c.pc = .readSig domain)
    (resolver : TxtLookup) (sender : SendRequest) :
    c.Ends env cfg (sigOutcome env cfg c.seen.authToken resolver domain
      (sender.get "/_ctrl/key_auth") (sender.get "/_ctrl/sig")) :=
  Ends.step (ends_onSig resolver domain _ _ fun _ id seen =>
      ends_keyAuth_h2 (c := { c with seen := seen, pc := .readKeyAuth id }) hc rfl sender)
    ((step_of_read rfl (read_h2 hc sender _)).2.1 domain hpc)

/-- An H2 handler whose requests are answered comes to the verdict of its listener. -/
theorem ends_h2 (hc : c.transport = .h2) (hpc : c.pc = .readDomain) (resolver : TxtLookup)
    (sender : SendRequest) :
    c.Ends env cfg
      (match h2AuthExchange env cfg.domainSuffixes c.seen.authToken resolver sender with
      | .error verdict => .refused verdict
      | .ok id => keyAuthOutcome id (sender.get "/_ctrl/key_auth")) := by
  rw [h2AuthExchange_eq]
  refine Ends.step ?_ ((step_of_read rfl (read_h2 hc sender "/_ctrl/domain")).1 hpc)
  cases sender.get "/_ctrl/domain" with
  | error e => exact .here rfl
  | ok domainBytes =>
    simp only [Conn.onDomain]
    cases fromUtf8 domainBytes with
    | none => exact .here rfl
    | some domain =>
      have hend : Ends env cfg _ _ := ends_sig_h2
        (c := { c with seen.domainBytes := domainBytes, pc := .readSig domain })
          hc rfl resolver sender
      refine hend.of_eq ?_
      simp only
      cases sender.get "/_ctrl/sig" with
      | error e => rfl
      | ok sig => rfl

end Conn

/-- A peer without a certificate is dropped, and one that the auth handler refuses is rejected; any
other goes on to its control stream. -/
theorem ends_peerCerts {env : Env} {cfg : Config} (transport : Transport)
    (peerCerts : Option (List Bytes)) (proceed : Option Bytes → Outcome)
    (hproceed : ∀ c : Conn, c.transport = transport → c.pc = .readDomain → c.buffer = [] →
      c.fin = false → c.Ends env cfg (proceed c.seen.authToken)) :
    (Conn.incoming transport).Ends env cfg
      (match peerCerts.bind List.head? with
      | none => .refused .dropped
      | some cert =>
        match checkHandler env cfg cert with
        | .error verdict => .refused verdict
        | .ok authToken => proceed authToken) := by
  rcases peerCerts with _ | _ | ⟨cert, chain⟩
  · exact Conn.Ends.step (i := .peerCerts none)
      (.here (c := (Conn.incoming transport).leave .dropped) rfl) rfl
  · exact Conn.Ends.step (i := .peerCerts (some []))
      (.here (c := (Conn.incoming transport).leave .dropped) rfl) rfl
  · simp only [Option.bind_some, List.head?_cons]
    cases hcheck : checkHandler env cfg cert with
    | error verdict =>
      refine Conn.Ends.step (i := .peerCerts (some (cert :: chain)))
        (.here (c := (Conn.incoming transport).leave verdict) rfl) ?_
      simp only [Conn.step, Conn.authStep, Conn.incoming, hcheck]
      rfl
    | ok authToken =>
      have hstep : ((Conn.incoming transport).step env cfg 0
          (.peerCerts (some (cert :: chain)))).map Prod.fst =
          some ⟨transport, .openControl, [], false, ⟨some cert, authToken, [], [], none⟩⟩ := by
        simp only [Conn.step, Conn.authStep, Conn.incoming, hcheck]
        rfl
      refine Conn.Ends.step (Conn.Ends.step (i := .opened) ?_ rfl) hstep
      exact hproceed ⟨transport, .readDomain, [], false, ⟨some cert, authToken, [], [], none⟩⟩
        rfl rfl rfl rfl

/-- **The listeners are the handlers.** Some run of the relay's handler of each transport, on what
the peer sends, comes to what its listener returns. -/
theorem listeners_run (env : Env) (cfg : Config) (resolver : TxtLookup)
    (peerCerts : Option (List Bytes)) (segments : List Bytes) (sender : SendRequest)
    (done : Except String Unit) :
    (Conn.incoming .quic).Ends env cfg (handleQuicConnection env cfg resolver peerCerts segments) ∧
    (Conn.incoming .h2).Ends env cfg
      (handleH2Connection env cfg resolver peerCerts sender done) := by
  constructor
  · refine (ends_peerCerts .quic peerCerts
      (fun authToken =>
        match quicAuthExchange env cfg.domainSuffixes authToken resolver segments with
        | .error verdict => .refused verdict
        | .ok (id, ctrlRecv) => Conn.keyAuthOutcome id (ctrlReadFrom ctrlRecv).1)
      fun c hc hpc hbuffer hfin => Conn.Ends.arrive segments hfin
        (Conn.ends_quic (c := { c with buffer := c.buffer ++ segments.flatten, fin := true })
          ⟨hc, by rw [hbuffer, List.nil_append], rfl⟩ hpc resolver)).of_eq ?_
    unfold handleQuicConnection
    cases peerCerts.bind List.head? with
    | none => rfl
    | some cert =>
      simp only
      change _ = match checkHandler env cfg cert with
        | .error verdict => _
        | .ok authToken => _
      cases checkHandler env cfg cert with
      | error verdict => rfl
      | ok authToken =>
        simp only
        rcases quicAuthExchange env cfg.domainSuffixes authToken resolver segments with
          verdict | ⟨id, left⟩
        · rfl
        · simp only [quicAcmeWait_eq]
          rcases ctrlReadFrom left with ⟨_ | keyAuth, left'⟩ <;> rfl
  · refine (ends_peerCerts .h2 peerCerts
      (fun authToken =>
        match h2AuthExchange env cfg.domainSuffixes authToken resolver sender with
        | .error verdict => .refused verdict
        | .ok id => Conn.keyAuthOutcome id (sender.get "/_ctrl/key_auth"))
      fun c hc hpc _ _ => Conn.ends_h2 hc hpc resolver sender).of_eq ?_
    unfold handleH2Connection
    cases peerCerts.bind List.head? with
    | none => rfl
    | some cert =>
      simp only
      change _ = match checkHandler env cfg cert with
        | .error verdict => _
        | .ok authToken => _
      cases checkHandler env cfg cert with
      | error verdict => rfl
      | ok authToken =>
        simp only
        cases h2AuthExchange env cfg.domainSuffixes authToken resolver sender with
        | error verdict => rfl
        | ok id =>
          simp only [h2AcmeWait_eq, h2ReadKeyAuth]
          cases sender.get "/_ctrl/key_auth" <;> rfl

end QuicTunnel.Relay
