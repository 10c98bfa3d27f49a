import QuicTunnel.Protocol.Exchange
import QuicTunnel.Relay.Registration

/-!
# Proof of possession

Any number of honest relays, a client that holds the identity key `K`, and an adversary that does
not.  The adversary opens connections to the honest relays, with its own certificate and whatever it
sends, and it operates relays that the client connects to: there the client takes the steps of
`Quic.clientStep` and `H2.clientStep`, and the adversary decides what comes back.

What the adversary gets to see of the key is what the client sends it: `signatures` holds the
messages with the signatures.  Channels are private, so nothing else is added to it.  That
signatures are unforgeable is the guard `Unforged`: where a connection of the adversary presents a
signature that recovers to `K`, the adversary has one over that message.

`sign_recoverable` signs the domain and nothing about the connection, so such a signature can be
presented again.  What an honest relay registers was opened by the holder of `K`, or presents a
signature that the client sent to the adversary, or one of another key with the same id.
-/

namespace QuicTunnel.Protocol.Replay

open Relay (Env Config Conn Frame Input MapOp sampleCert sampleEnv)
open Transition

/-- Who opens a connection. -/
inductive Party
  | client
  | adversary
  deriving DecidableEq

/-- An honest relay, with who opened each of its connections. -/
structure Site where
  relay : Relay.State
  openers : List Party

structure State where
  sites : ℕ → Site
  /-- The client's sessions at relays of the adversary. -/
  quic : List Quic.State
  h2 : List H2.State
  /-- What the client signed and sent to the adversary, with the signatures. -/
  signatures : List (Bytes × Bytes)

def init : State := ⟨fun _ => ⟨Relay.init, []⟩, [], [], []⟩

inductive Action
  /-- A party opens a connection to an honest relay. -/
  | accept (r : ℕ) (party : Party) (transport : Relay.Transport)
  /-- A handler of an honest relay takes a step. -/
  | input (r k : ℕ) (i : Input)
  /-- The client connects to a relay of the adversary. -/
  | connect (transport : Relay.Transport)
  /-- The client takes a step in a session with the adversary. -/
  | quic (j : ℕ) (a : Quic.Action)
  | h2 (j : ℕ) (a : H2.Action)
  /-- The adversary sends to the client, ends the stream or closes. -/
  | quicReply (j : ℕ) (bytes : Bytes) (finish close : Bool)
  | h2Reply (j : ℕ) (requests : List H2.Request) (close : Bool)
  deriving DecidableEq

/-- What the client has answered with a step, on H2. -/
def answered (s t : H2.State) : List (Frame × Bytes) :=
  match s.client, t.client, t.response with
  | .acceptDomain, .acceptSig, some body => [(.domain, body)]
  | .acceptSig, .acceptKeyAuth, some body => [(.sig, body)]
  | .respondKeyAuth _ _, .challenge, some body => [(.keyAuth, body)]
  | .respondKeyAuth _ _, .exchanged, some body => [(.keyAuth, body)]
  | .finalize, .exchanged, some body => [(.done, body)]
  | _, _, _ => []

/-- The signatures among the frames of a client: they are over its domain. -/
def signed (script : Script) (frames : List (Frame × Bytes)) : List (Bytes × Bytes) :=
  (frames.filter fun frame => frame.1 = .sig).map fun frame => (utf8 script.domain, frame.2)

/-- What the adversary's relay sends in a session. -/
def quicReply (s : Quic.State) (bytes : Bytes) (finish close : Bool) : Quic.State :=
  { s with toClient := s.toClient ++ bytes, finished := s.finished || finish
           relayClosed := s.relayClosed || close }

def h2Reply (s : H2.State) (requests : List H2.Request) (close : Bool) : H2.State :=
  { s with requests := s.requests ++ requests, relayClosed := s.relayClosed || close }

/-- A site goes on. -/
def State.atSite (s : State) (r : ℕ) (site : Site) : State :=
  { s with sites := Function.update s.sites r site }

/-- A step. -/
def step (env : Env) (cfg : ℕ → Config) (script : Script) (s : State) : Action → Option State
  | .accept r party transport =>
    (Relay.step env (cfg r) (s.sites r).relay (.accept transport)).map fun relay =>
      s.atSite r ⟨relay, (s.sites r).openers ++ [party]⟩
  | .input r k i =>
    (Relay.step env (cfg r) (s.sites r).relay (.input k i)).map fun relay =>
      s.atSite r ⟨relay, (s.sites r).openers⟩
  | .connect .quic => some { s with quic := s.quic ++ [Quic.init] }
  | .connect .h2 => some { s with h2 := s.h2 ++ [H2.init] }
  | .quic j a => s.quic[j]?.bind fun c => (Quic.clientStep script c a).map fun c' =>
      { s with quic := s.quic.set j c'
               signatures := s.signatures ++ signed script (c'.sent.drop c.sent.length) }
  | .h2 j a => s.h2[j]?.bind fun c => (H2.clientStep script c a).map fun c' =>
      { s with h2 := s.h2.set j c'
               signatures := s.signatures ++ signed script (answered c c') }
  | .quicReply j bytes finish close => s.quic[j]?.map fun c =>
      { s with quic := s.quic.set j (quicReply c bytes finish close) }
  | .h2Reply j requests close => s.h2[j]?.map fun c =>
      { s with h2 := s.h2.set j (h2Reply c requests close) }

/-- The key that a relay recovers from a signature over a message. -/
def recovered (env : Env) (message sig : Bytes) : Option env.Key :=
  (env.tryFrom sig).bind fun recSig => env.recoverVerifyingKey recSig message

/-- Where a relay reads a signature by `K` from the adversary, the adversary has got one over that
message. -/
def Unforged (env : Env) (K : env.Key) (s : State) (a : Action) : Prop :=
  match a with
  | .input r k i =>
    match (s.sites r).relay.conns[k]?, (s.sites r).openers[k]? with
    | some c, some .adversary =>
      match c.pc, c.read i with
      | .readSig domain, some (.ok bytes, _) =>
        recovered env (utf8 domain) bytes = some K → utf8 domain ∈ s.signatures.map Prod.fst
      | _, _ => True
    | _, _ => True
  | _ => True

instance (env : Env) [DecidableEq env.Key] (K : env.Key) (s : State) (a : Action) :
    Decidable (Unforged env K s a) := by
  unfold Unforged
  repeat' split
  all_goals infer_instance

/-! ### The connections of the adversary -/

/-- The signature has not been read yet. -/
def unsigned : Relay.Pc → Bool
  | .handshake | .openControl | .readDomain | .readSig _ => true
  | _ => false

/-- A signature by `K` that the adversary presents is over a message that it has got one for. -/
structure Genuine (env : Env) (K : env.Key) (messages : List Bytes) (c : Conn) : Prop where
  unread : unsigned c.pc = true → c.seen.sigBytes = []
  got : recovered env c.seen.domainBytes c.seen.sigBytes = some K → c.seen.domainBytes ∈ messages

section Genuine

variable {env : Env} {cfg : Config} {K : env.Key} {messages messages' : List Bytes}

/-- `recoverable::Signature::try_from` takes exactly 65 bytes. -/
def Takes65 (env : Env) : Prop :=
  ∀ bytes recSig, env.tryFrom bytes = some recSig → bytes.length = 65

theorem Takes65.recovered_nil (h : Takes65 env) (message : Bytes) :
    recovered env message [] = none := by
  unfold recovered
  cases hsig : env.tryFrom [] with
  | none => rfl
  | some recSig => cases h [] recSig hsig

theorem Genuine.mono {c : Conn} (h : Genuine env K messages c) (hsub : messages ⊆ messages') :
    Genuine env K messages' c :=
  ⟨h.unread, fun hk => hsub (h.got hk)⟩

theorem genuine_incoming (h65 : Takes65 env) (transport : Relay.Transport) :
    Genuine env K messages (Conn.incoming transport) where
  unread _ := rfl
  got hk := by
    rw [Conn.incoming, h65.recovered_nil] at hk
    cases hk

theorem Genuine.move {token : ℕ} {c c' : Conn} {i : Input} {op : MapOp}
    (h : Genuine env K messages c) (h65 : Takes65 env) (hevident : c.Evident env cfg)
    (hmove : c.Move env cfg token i c' op)
    (hunforged : ∀ domain bytes rest, c.pc = .readSig domain → c.read i = some (.ok bytes, rest) →
      recovered env (utf8 domain) bytes = some K → utf8 domain ∈ messages) :
    Genuine env K messages c' := by
  cases hmove with
  | data | fin => exact ⟨h.unread, h.got⟩
  | accepted hpc | opened hpc => exact ⟨fun _ => h.unread (by rw [hpc]; rfl), h.got⟩
  | announced hread hpc =>
    -- There is a new domain, but no signature yet.
    have hnil := h.unread (by rw [hpc]; rfl)
    refine ⟨fun _ => hnil, fun hk => ?_⟩
    rw [hnil, h65.recovered_nil] at hk
    cases hk
  | identified hread hpc | lookUp hread hpc =>
    rw [Conn.Evident, hpc] at hevident
    have hdomain := utf8_of_fromUtf8 hevident.2.2
    refine ⟨fun hunread => (by cases hunread), fun hk => ?_⟩
    rw [← hdomain] at hk ⊢
    exact hunforged _ _ _ hpc hread hk
  | _ => exact ⟨fun hunread => (by cases hunread), h.got⟩

end Genuine

/-! ### The invariant -/

structure SiteInv (env : Env) (cfg : Config) (K : env.Key) (messages : List Bytes) (site : Site) :
    Prop where
  relay : Relay.Inv env cfg site.relay
  openers : site.openers.length = site.relay.conns.length
  genuine : ∀ (k : ℕ) (c : Conn), site.relay.conns[k]? = some c →
    site.openers[k]? = some .adversary → Genuine env K messages c

section SiteInv

variable {env : Env} {cfg : Config} {K : env.Key} {messages messages' : List Bytes} {site : Site}

theorem siteInv_init : SiteInv env cfg K messages ⟨Relay.init, []⟩ where
  relay := Relay.inv_init
  openers := rfl
  genuine := by rintro k c ⟨⟩

theorem SiteInv.mono (h : SiteInv env cfg K messages site) (hsub : messages ⊆ messages') :
    SiteInv env cfg K messages' site :=
  ⟨h.relay, h.openers, fun k c hc ho => (h.genuine k c hc ho).mono hsub⟩

theorem SiteInv.accept (h : SiteInv env cfg K messages site) (h65 : Takes65 env) {party : Party}
    {transport : Relay.Transport} {t : Relay.State}
    (hstep : Relay.step env cfg site.relay (.accept transport) = some t) :
    SiteInv env cfg K messages ⟨t, site.openers ++ [party]⟩ := by
  have hrelay := h.relay.step hstep
  cases hstep
  refine ⟨hrelay, by simp [h.openers], fun k c hc ho => ?_⟩
  by_cases hk : k < site.relay.conns.length
  · rw [List.getElem?_append_left hk] at hc
    rw [List.getElem?_append_left (h.openers ▸ hk)] at ho
    exact h.genuine k c hc ho
  · -- It is the new connection.
    rw [List.getElem?_append_right (Nat.not_lt.1 hk)] at hc
    cases List.mem_singleton.1 (List.mem_of_getElem? hc)
    exact genuine_incoming h65 transport

theorem SiteInv.input (h : SiteInv env cfg K messages site) (h65 : Takes65 env) {k : ℕ} {i : Input}
    {t : Relay.State} (hstep : Relay.step env cfg site.relay (.input k i) = some t)
    (hunforged : ∀ c domain bytes rest, site.relay.conns[k]? = some c →
      site.openers[k]? = some .adversary → c.pc = .readSig domain →
      c.read i = some (.ok bytes, rest) → recovered env (utf8 domain) bytes = some K →
      utf8 domain ∈ messages) : SiteInv env cfg K messages ⟨t, site.openers⟩ := by
  have hrelay := h.relay.step hstep
  obtain ⟨c, c', op, hc, hmove, rfl⟩ := Relay.step_input hstep
  have hlt : k < site.relay.conns.length := (List.getElem?_eq_some_iff.1 hc).1
  refine ⟨hrelay, ?_, fun j d hd ho => ?_⟩
  · rw [Relay.State.conns_apply, List.length_set]
    exact h.openers
  · rw [Relay.State.conns_apply] at hd
    by_cases hkj : k = j
    · subst hkj
      rw [List.getElem?_set_self hlt] at hd
      cases hd
      exact (h.genuine k c hc ho).move h65 (h.relay.conns c (List.mem_of_getElem? hc)) hmove
        fun domain bytes rest => hunforged c domain bytes rest hc ho
    · rw [List.getElem?_set_ne hkj] at hd
      exact h.genuine j d hd ho

end SiteInv

section Inv

variable {env : Env} {cfg : ℕ → Config} {script : Script} {K : env.Key} {s t : State}

/-- The messages that the adversary has a signature for. -/
def State.messages (s : State) : List Bytes := s.signatures.map Prod.fst

structure Inv (env : Env) (cfg : ℕ → Config) (script : Script) (K : env.Key) (s : State) :
    Prop where
  sites : ∀ r, SiteInv env (cfg r) K s.messages (s.sites r)
  /-- The client signs its domain. -/
  signatures : ∀ signature ∈ s.signatures,
    signature.1 = utf8 script.domain ∧ script.sig = .ok signature.2

theorem inv_init : Inv env cfg script K init where
  sites _ := siteInv_init
  signatures := by rintro signature ⟨⟩

/-- A site goes on. -/
theorem Inv.atSite (h : Inv env cfg script K s) {r : ℕ} {site : Site}
    (hsite : SiteInv env (cfg r) K s.messages site) : Inv env cfg script K (s.atSite r site) where
  sites := (Function.forall_update_iff s.sites fun r site =>
    SiteInv env (cfg r) K s.messages site).2 ⟨hsite, fun r' _ => h.sites r'⟩
  signatures := h.signatures

/-- The client sends to the adversary. -/
theorem Inv.sends (h : Inv env cfg script K s) {frames : List (Frame × Bytes)}
    (hframes : ∀ sig, (.sig, sig) ∈ frames → script.sig = .ok sig) (hsites : t.sites = s.sites)
    (hsent : t.signatures = s.signatures ++ signed script frames) : Inv env cfg script K t where
  sites r := by
    rw [hsites]
    refine (h.sites r).mono ?_
    rw [State.messages, State.messages, hsent, List.map_append]
    exact List.subset_append_left _ _
  signatures signature hmem := by
    rcases List.mem_append.1 (hsent ▸ hmem) with hold | hnew
    · exact h.signatures signature hold
    · obtain ⟨⟨frame, sig⟩, hframe, rfl⟩ := List.mem_map.1 hnew
      obtain ⟨hmem, hsig⟩ := List.mem_filter.1 hframe
      cases of_decide_eq_true hsig
      exact ⟨rfl, hframes sig hmem⟩

/-- The signature that a client sends is the one over its domain. -/
theorem sig_of_quicMove {c c' : Quic.State} (h : Quic.ClientMove script c c') {sig : Bytes}
    (hmem : (.sig, sig) ∈ c'.sent.drop c.sent.length) : script.sig = .ok sig := by
  cases h with
  | sig hpc hsig =>
    simp only [List.drop_left, List.mem_singleton, Prod.mk.injEq, true_and] at hmem
    rw [hmem]
    exact hsig
  | domain | challenge | cached | done =>
    simp only [List.drop_left, List.mem_singleton, Prod.mk.injEq] at hmem
    cases hmem.1
  | failed | opened | prepared | ack | served | accepted | built =>
    simp [Quic.State.fail] at hmem

theorem sig_of_h2Move {c c' : H2.State} (h : H2.ClientMove script c c') {sig : Bytes}
    (hmem : (.sig, sig) ∈ answered c c') : script.sig = .ok sig := by
  cases h with
  | sig hpc hrequests hsig =>
    simp only [answered, hpc, List.mem_singleton, Prod.mk.injEq, true_and] at hmem
    rw [hmem]
    exact hsig
  | failed | rejected | unexpected => simp [answered, H2.State.fail] at hmem
  | alpn hpc => simp [answered, hpc] at hmem
  | serves hpc => rcases hpc with hpc | hpc <;> simp [answered, hpc] at hmem
  | domain hpc | keyAuth hpc | prepared hpc | challenge hpc | cached hpc | done hpc
  | finalized hpc | built hpc => simp [answered, hpc] at hmem

theorem Unforged.input {r k : ℕ} {i : Input} (h : Unforged env K s (.input r k i)) {c : Conn}
    {domain : String} {bytes : Bytes} {rest : Conn} (hc : (s.sites r).relay.conns[k]? = some c)
    (ho : (s.sites r).openers[k]? = some .adversary) (hpc : c.pc = .readSig domain)
    (hread : c.read i = some (.ok bytes, rest))
    (hk : recovered env (utf8 domain) bytes = some K) : utf8 domain ∈ s.messages := by
  simp only [Unforged, hc, ho, hpc, hread] at h
  exact h hk

theorem Inv.step (h : Inv env cfg script K s) (h65 : Takes65 env) {a : Action}
    (hunforged : Unforged env K s a) (hstep : Replay.step env cfg script s a = some t) :
    Inv env cfg script K t := by
  cases a with
  | accept r party transport =>
    simp only [Replay.step] at hstep
    obtain ⟨relay, hrelay, rfl⟩ := Option.map_eq_some_iff.1 hstep
    exact h.atSite ((h.sites r).accept h65 hrelay)
  | input r k i =>
    obtain ⟨relay, hrelay, rfl⟩ := Option.map_eq_some_iff.1 hstep
    exact h.atSite ((h.sites r).input h65 hrelay fun _ _ _ _ => hunforged.input)
  | connect transport => cases transport <;> cases hstep <;> exact ⟨h.sites, h.signatures⟩
  | quic j a =>
    obtain ⟨c, -, hclient⟩ := Option.bind_eq_some_iff.1 hstep
    obtain ⟨c', hmove, rfl⟩ := Option.map_eq_some_iff.1 hclient
    exact h.sends (fun _ => sig_of_quicMove (Quic.clientStep_move hmove)) rfl rfl
  | h2 j a =>
    obtain ⟨c, -, hclient⟩ := Option.bind_eq_some_iff.1 hstep
    obtain ⟨c', hmove, rfl⟩ := Option.map_eq_some_iff.1 hclient
    exact h.sends (fun _ => sig_of_h2Move (H2.clientStep_move hmove)) rfl rfl
  | quicReply | h2Reply =>
    obtain ⟨c, -, rfl⟩ := Option.map_eq_some_iff.1 hstep
    exact ⟨h.sites, h.signatures⟩

theorem inv_of_runs (h65 : Takes65 env) {schedule : List Action}
    (h : runs (Replay.step env cfg script) init schedule = some s)
    (hunforged : Meets (Replay.step env cfg script) (Unforged env K) init schedule) :
    Inv env cfg script K s :=
  runs_invariant_of_meets (fun _ _ _ hs hu ht => hs.step h65 hu ht) h hunforged inv_init

end Inv

/-! ### Possession or replay -/

/-- A connection presents a signature over its domain, by a key with this id; if the key is `K`, the
domain is the client's, and the client has sent its signature to the adversary. -/
def Replays (env : Env) (script : Script) (K : env.Key) (s : State) (id : String) (c : Conn) :
    Prop :=
  ∃ key, recovered env c.seen.domainBytes c.seen.sigBytes = some key ∧
    Relay.idFromPubkey env.toPrimitives (env.toSec1 key true) = id ∧
    (key = K → c.seen.domainBytes = utf8 script.domain ∧
      ∃ sig, script.sig = .ok sig ∧ (utf8 script.domain, sig) ∈ s.signatures)

/-- **Possession or replay.** Every connection that an honest relay registers was opened by the
holder of the key, or it presents a signature that the client has sent to the adversary, or one of
another key with the same id. -/
theorem registered_by_holder_or_replay (env : Env) (cfg : ℕ → Config) (script : Script)
    (K : env.Key) (h65 : Takes65 env) (schedule : List Action) (s : State)
    (h : runs (step env cfg script) init schedule = some s)
    (hunforged : Meets (step env cfg script) (Unforged env K) init schedule)
    (r : ℕ) (id : String) (pool : List (ℕ × ℕ)) (hpool : (s.sites r).relay.agents id = some pool)
    (uid k : ℕ) (hmem : (uid, k) ∈ pool) :
    (s.sites r).openers[k]? = some .client ∨
      (s.sites r).openers[k]? = some .adversary ∧
        ∃ c, (s.sites r).relay.conns[k]? = some c ∧ Replays env script K s id c := by
  have hinv := inv_of_runs h65 h hunforged
  obtain ⟨c, hc, -, hcomplete⟩ := (hinv.sites r).relay.agents id pool hpool _ hmem
  obtain ⟨domain, hadmitted⟩ := hcomplete.admitted
  obtain ⟨recSig, key, hsig, hkey, hid⟩ := hadmitted.signature
  have hrecovered : recovered env c.seen.domainBytes c.seen.sigBytes = some key := by
    rw [recovered, hsig, Option.bind_some, hkey]
  have hlt : k < (s.sites r).openers.length := by
    rw [(hinv.sites r).openers]
    exact (List.getElem?_eq_some_iff.1 hc).1
  cases ho : (s.sites r).openers[k]? with
  | none => exact absurd hlt (Nat.not_lt.2 (List.getElem?_eq_none_iff.1 ho))
  | some party =>
    cases party with
    | client => exact .inl rfl
    | adversary =>
      refine .inr ⟨rfl, c, hc, key, hrecovered, hid.symm, ?_⟩
      rintro rfl
      obtain ⟨signature, hmem, hfst⟩ :=
        List.mem_map.1 (((hinv.sites r).genuine k c hc ho).got hrecovered)
      obtain ⟨hdomain, hsent⟩ := hinv.signatures signature hmem
      refine ⟨hfst.symm.trans hdomain, signature.2, hsent, ?_⟩
      rw [← hdomain]
      exact hmem

/-- The client connects to a relay of the adversary, which passes on to an honest relay what it
gets: the domain, the signature, and an empty key authorization. -/
def replaySchedule : List Action :=
  [.connect .quic, .quic 0 .go, .quic 0 .go, .quic 0 .go, .accept 0 .adversary .quic,
    .input 0 0 (.peerCerts (some [sampleCert])), .input 0 0 .opened,
    .input 0 0 (.data (toBeBytes 32 ++ utf8 Sample.domain ++ toBeBytes 65 ++ Sample.signature ++
      toBeBytes 0)),
    .input 0 0 .poll, .input 0 0 .poll, .input 0 0 .poll, .input 0 0 (.drew 7)]

/-- The relay takes every domain and has no auth handler. -/
def anyRelay : ℕ → Config := fun _ => ⟨[], none⟩

instance : DecidableEq sampleEnv.Key := inferInstanceAs (DecidableEq Unit)

/-- The key of the client. -/
def sampleKey : sampleEnv.Key := ()

theorem sample_takes65 : Takes65 sampleEnv := by
  intro bytes recSig h
  have hbytes : bytes = Sample.signature := by
    by_contra hne
    have hnone : sampleEnv.tryFrom bytes = none := if_neg hne
    rw [hnone] at h
    cases h
  rw [hbytes]
  rfl

theorem replay_runs :
    ∃ s, runs (step sampleEnv anyRelay (sampleScript none)) init replaySchedule = some s ∧
      (s.sites 0).relay.agents Sample.clientId = some [(7, 0)] ∧
      (s.sites 0).openers = [.adversary] := by
  have hrun : (runs (step sampleEnv anyRelay (sampleScript none)) init replaySchedule).map
      (fun s => ((s.sites 0).relay.agents Sample.clientId, (s.sites 0).openers)) =
        some (some [(7, 0)], [.adversary]) := by decide +kernel
  obtain ⟨s, hs, hat⟩ := Option.map_eq_some_iff.1 hrun
  exact ⟨s, hs, Prod.mk.inj hat⟩

theorem replay_unforged : Meets (step sampleEnv anyRelay (sampleScript none))
    (Unforged sampleEnv sampleKey) init replaySchedule := by
  decide +kernel

theorem registered_by_replay_of_sample :
    ∃ s c, runs (step sampleEnv anyRelay (sampleScript none)) init replaySchedule = some s ∧
      (s.sites 0).relay.conns[0]? = some c ∧
      Replays sampleEnv (sampleScript none) sampleKey s Sample.clientId c := by
  obtain ⟨s, hs, hagents, hopeners⟩ := replay_runs
  have hpossession := registered_by_holder_or_replay sampleEnv anyRelay (sampleScript none)
    sampleKey sample_takes65 replaySchedule s hs replay_unforged 0 Sample.clientId _ hagents 7 0
    (List.mem_singleton.2 rfl)
  rw [hopeners] at hpossession
  rcases hpossession with hclient | ⟨-, c, hc, hreplays⟩
  · cases hclient
  · exact ⟨s, c, hs, hc, hreplays⟩

/-- The adversary registers under the id of a key that it does not hold. -/
theorem adversary_registers_under_id :
    Relay.idFromPubkey sampleEnv.toPrimitives (sampleEnv.toSec1 sampleKey true) = Sample.clientId ∧
    Meets (step sampleEnv anyRelay (sampleScript none)) (Unforged sampleEnv sampleKey) init
      replaySchedule ∧
    ∃ s, runs (step sampleEnv anyRelay (sampleScript none)) init replaySchedule = some s ∧
      (s.sites 0).relay.agents Sample.clientId = some [(7, 0)] ∧
      (s.sites 0).openers = [.adversary] :=
  ⟨by decide +kernel, replay_unforged, replay_runs⟩

end QuicTunnel.Protocol.Replay
