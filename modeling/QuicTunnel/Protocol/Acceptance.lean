import QuicTunnel.Protocol.QuicInStep
import QuicTunnel.Relay.Registration

/-!
# Established and authenticated

Whether a client whose session is up was authenticated: whether the relay's auth exchange for its
connection had returned an id.

On H2 it always was, since the request for the key authorization is sent only after the exchange
has returned (`H2.Acceptance`).

On QUIC the client takes the end of the relay's direction of the control stream for the acceptance,
and that stream ends with every return that drops it.  A return after a rejection does no harm, as
the connection is closed first; neither does one after a frame that cannot be read, as the client
has left by then.  `Conn.quietExit` lists the others: in the runs without them the client is right
(`Quic.Acceptance`), and after one of them it can take itself for accepted (`up_of_quietExit`).
-/

namespace QuicTunnel.Relay

/-- The auth exchange times out, or its TXT lookup fails. -/
def Conn.quietExit (c : Conn) : Input → Bool
  | .timeout => c.pc.inAuthExchange
  | .txtAnswer none => c.pc.inAuthExchange
  | _ => false

section QuietExit

variable {env : Env} {cfg : Config} {token : ℕ} {c c' : Conn} {i : Input} {op : MapOp}

/-- Only the peer ends its direction of the control stream. -/
theorem Conn.Move.fin_eq (hmove : Conn.Move env cfg token c i c' op) (hi : i ≠ .fin) :
    c'.fin = c.fin := by
  cases hmove with
  | fin => exact absurd rfl hi
  | _ => rfl

/-- A handler that drops the control stream without a rejection has authenticated its peer, or it
has failed to read from it, or its auth exchange ends quietly. -/
theorem Conn.Move.of_drop (hmove : Conn.Move env cfg token c i c' op)
    (hholds : c.pc.holdsControl = true) (hdrop : c'.pc.holdsControl = false)
    (hrejected : c'.pc.isRejected = false) (hquiet : c.quietExit i = false) :
    c.pc.client?.isSome = true ∨ (∃ e, c.read i = some (.error e, c)) ∨
      c.pc = .readDomain ∧ ∃ bytes buffer,
        c.read i = some (.ok bytes, { c with buffer := buffer }) ∧ fromUtf8 bytes = none := by
  cases hmove with
  | data | fin =>
    rw [hholds] at hdrop
    cases hdrop
  | accepted hpc | opened hpc =>
    rw [hpc] at hholds
    cases hholds
  | refused verdict hpc =>
    rcases hpc with hpc | hpc <;> rw [hpc] at hholds <;> cases hholds
  | timedOut verdict hpc => cases hpc.symm.trans hquiet
  | readFailed hread => exact .inr (.inl ⟨_, hread⟩)
  | notUtf8 hread hpc h => exact .inr (.inr ⟨hpc, _, _, hread, h⟩)
  | announced | identified | lookUp | authorized => cases hdrop
  | unidentified hread hpc h =>
    obtain ⟨reason, rfl⟩ := checkIdentity_eq_error h
    cases hrejected
  | @unauthorized answer source domain id verdict hpc h =>
    cases answer with
    | none =>
      rw [Conn.quietExit, hpc] at hquiet
      cases hquiet
    | some values =>
      obtain ⟨reason, rfl⟩ := checkTxt_eq_error h
      cases hrejected
  | noKeyAuth hpc | cached hread hpc | challenge hread hpc | inserted hpc | acked hpc
  | notAcked hpc | done hread hpc | removed hpc | abandoned hpc | registered uid hpc | closed hpc
  | unlinked hpc | swept hpc =>
    rw [hpc]
    exact .inl rfl

/-- On a quiet exit the handler leaves without a rejection, while it holds the control stream. -/
theorem Conn.step_of_quietExit (hquic : c.transport = .quic) (hquiet : c.quietExit i = true)
    (hstep : c.step env cfg token i = some (c', op)) :
    c.pc.holdsControl = true ∧
      ∃ verdict, c' = c.leave verdict ∧ (verdict = .timedOut ∨ verdict = .dropped) := by
  cases i with
  | timeout =>
    cases hpc : c.pc with
    | readDomain | readSig | lookupTxt =>
      simp only [Conn.step, Conn.authStep, Conn.authTimeout, hpc, hquic] at hstep
      cases hstep
      exact ⟨rfl, _, rfl, .inl rfl⟩
    | _ => rw [Conn.quietExit, hpc] at hquiet; cases hquiet
  | txtAnswer answer =>
    cases answer with
    | some values => cases hquiet
    | none =>
      cases hpc : c.pc with
      | lookupTxt domain id source =>
        simp only [Conn.step, Conn.authStep, hpc] at hstep
        cases hstep
        exact ⟨rfl, _, rfl, .inr rfl⟩
      | readDomain | readSig =>
        simp [Conn.step, Conn.authStep, Conn.serveStep, hpc, Conn.read] at hstep
      | _ => rw [Conn.quietExit, hpc] at hquiet; cases hquiet
  | _ => cases hquiet

end QuietExit

end QuicTunnel.Relay

/-! ### H2 -/

namespace QuicTunnel.Protocol.H2

open Relay (Env Config Conn Input MapOp)
open Transition

variable {env : Env} {cfg : Config} {script : Script} {s t : State}

/-- The client has accepted the request for the key authorization. -/
def Pc.pastKeyAuth : Pc → Bool
  | .prepare | .respondKeyAuth _ _ | .challenge | .finalize | .exchanged | .up => true
  | _ => false

/-- The key authorization is asked for only after the authentication. -/
structure Acceptance (s : State) : Prop where
  asked : .keyAuth ∈ s.requests → s.authenticated = true
  past : s.client.pastKeyAuth = true → s.authenticated = true

/-- The client takes requests off and goes on, at most to where it was. -/
theorem Acceptance.goto (h : Acceptance s) (hauth : t.authenticated = s.authenticated)
    (hrequests : t.requests <:+ s.requests)
    (hpast : t.client.pastKeyAuth = true → s.client.pastKeyAuth = true ∨ .keyAuth ∈ s.requests) :
    Acceptance t where
  asked hmem := by
    rw [hauth]
    exact h.asked (hrequests.subset hmem)
  past ht := by
    rw [hauth]
    exact (hpast ht).elim h.past h.asked

theorem Acceptance.client (h : Acceptance s) (hmove : ClientMove script s t) : Acceptance t := by
  have hrest : ∀ {request rest}, s.requests = request :: rest → rest <:+ s.requests := by
    intro request rest hrequests
    rw [hrequests]
    exact List.suffix_cons request rest
  cases hmove with
  | failed _ hsuffix => exact h.goto rfl hsuffix nofun
  | rejected hr | unexpected hr | domain _ hr | sig _ hr => exact h.goto rfl (hrest hr) nofun
  | keyAuth hpc hr =>
    exact h.goto rfl (hrest hr) fun _ => .inr (by rw [hr]; exact List.mem_cons_self)
  | prepared hpc | challenge hpc | cached hpc | finalized hpc | built hpc =>
    exact h.goto rfl List.suffix_rfl fun _ => .inl (by rw [hpc]; rfl)
  | alpn hpc hr | serves hpc hr => exact h.goto rfl (hrest hr) .inl
  | done hpc hr => exact h.goto rfl (hrest hr) fun _ => .inl (by rw [hpc]; rfl)

/-- The handler asks for the key authorization as it gets past the auth exchange. -/
theorem isSome_client_of_requestAt {pc : Relay.Pc} (h : .keyAuth ∈ requestAt pc) :
    pc.client?.isSome = true := by
  cases pc with
  | readKeyAuth => rfl
  | gone verdict => cases verdict <;> simp [requestAt] at h
  | _ => simp [requestAt] at h

theorem Acceptance.relay (h : Acceptance s) {c : Conn}
    (hrequests : t.requests = s.requests ++ requestAt c.pc)
    (hauth : t.authenticated = (s.authenticated || c.pc.client?.isSome))
    (hclient : t.client = s.client) : Acceptance t where
  asked hmem := by
    rw [hrequests, List.mem_append] at hmem
    rw [hauth, Bool.or_eq_true]
    exact hmem.imp h.asked isSome_client_of_requestAt
  past hp := by
    rw [hclient] at hp
    rw [hauth, h.past hp, Bool.true_or]

/-- A stream that the relay opens is not a request for the key authorization. -/
theorem Acceptance.opens (h : Acceptance s) {request : Request} (hne : request ≠ .keyAuth) :
    Acceptance { s with requests := s.requests ++ [request] } where
  asked hmem := by
    rcases List.mem_append.1 hmem with hold | hnew
    · exact h.asked hold
    · exact absurd (List.mem_singleton.1 hnew).symm hne
  past := h.past

theorem Acceptance.step (h : Acceptance s) {a : Action}
    (hstep : H2.step env cfg script s a = some t) : Acceptance t := by
  rcases step_move hstep with hmove | ⟨i, c, op, -, -, rfl⟩ | ⟨chunks, c, op, -, -, rfl⟩ |
    ⟨-, rfl⟩ | ⟨-, rfl⟩
  · exact h.client hmove
  · exact h.relay rfl rfl rfl
  · exact h.relay rfl rfl rfl
  · exact h.opens nofun
  · exact h.opens nofun

theorem acceptance_of_reach (h : Reach (H2.step env cfg script) init s) : Acceptance s :=
  h.invariant (fun _ _ _ hs => hs.step) ⟨nofun, nofun⟩

end QuicTunnel.Protocol.H2

/-! ### QUIC -/

namespace QuicTunnel.Protocol.Quic

open Relay (Env Config Conn Input MapOp)
open Transition

variable {env : Env} {cfg : Config} {script : Script} {s t : State}

/-- A step that does not end the relay's auth exchange quietly. -/
def NotQuiet (s : State) (a : Action) : Prop :=
  match a with
  | .relay i => s.relay.quietExit i = false
  | _ => True

instance (s : State) (a : Action) : Decidable (NotQuiet s a) := by
  unfold NotQuiet
  split <;> infer_instance

/-- The client has taken the end of the control stream for its acceptance. -/
def Pc.isAccepted : Pc → Bool
  | .buildAcceptor | .up => true
  | _ => false

structure Acceptance (s : State) : Prop where
  /-- A handler past the auth exchange has returned from it. -/
  returned : s.relay.pc.client?.isSome = true → s.authenticated = true
  /-- The client ends its direction of the stream only as it leaves or is accepted. -/
  ended : s.relay.fin = true → s.client.isFailed = true ∨ s.client.isAccepted = true
  finished : s.finished = true → s.client.isFailed = true ∨ s.authenticated = true
  accepted : s.client.isAccepted = true → s.authenticated = true

/-- The client goes on before its acceptance. -/
theorem Acceptance.goto (h : Acceptance s) {pc : Pc} (hpc : s.client = pc)
    (hlive : pc.isFailed = false ∧ pc.isAccepted = false) (hrelay : t.relay.pc = s.relay.pc)
    (hfin : t.relay.fin = s.relay.fin) (hfinished : t.finished = s.finished)
    (hauth : t.authenticated = s.authenticated) (hclient : t.client.isAccepted = false) :
    Acceptance t where
  returned := by rw [hrelay, hauth]; exact h.returned
  ended ht := by
    have hended := h.ended (hfin ▸ ht)
    rw [hpc, hlive.1, hlive.2] at hended
    simp at hended
  finished ht := by
    have hended := h.finished (hfinished ▸ ht)
    rw [hpc, hlive.1] at hended
    rw [hauth]
    exact .inr (hended.resolve_left nofun)
  accepted ht := by
    rw [hclient] at ht
    cases ht

theorem Acceptance.client (h : Acceptance s) (hmove : ClientMove script s t) : Acceptance t := by
  cases hmove with
  | failed => exact ⟨h.returned, fun _ => .inl rfl, fun _ => .inl rfl, nofun⟩
  | accepted hpc hfinished =>
    have hauth := h.finished hfinished
    rw [hpc] at hauth
    have hauth' : s.authenticated = true := hauth.resolve_left nofun
    exact ⟨h.returned, fun _ => .inr rfl, fun _ => .inr hauth', fun _ => hauth'⟩
  | built hpc =>
    have hauth := h.accepted (by rw [hpc]; rfl)
    exact ⟨h.returned, fun _ => .inr rfl, fun _ => .inr hauth, fun _ => hauth⟩
  | opened hpc | domain hpc | sig hpc | prepared hpc | challenge hpc | cached hpc | ack hpc
  | served hpc | done hpc => exact h.goto hpc ⟨rfl, rfl⟩ rfl rfl rfl rfl rfl

/-- A handler fails to read only from a client that has left or was accepted. -/
theorem Acceptance.of_readError (h : Acceptance s) (hinv : Inv script s) {i : Input} {e : String}
    (hadmits : s.admits i = true) (hread : s.relay.read i = some (.error e, s.relay)) :
    s.client.isFailed = true ∨ s.client.isAccepted = true := by
  cases i with
  | lost => exact .inl (hinv.leaving.closed hadmits)
  | poll =>
    simp only [Conn.read, hinv.stream.quic] at hread
    split at hread
    · cases hread
    · rename_i hctrl
      exact h.ended (hinv.stream.fin_of_error hinv.plan hctrl)
    · cases hread
  | response chunks =>
    simp only [Conn.read, hinv.stream.quic] at hread
    cases hread
  | _ => cases hread

/-- The domain that a handler reads is the client's. -/
theorem Inv.domain_of_read (h : Inv script s) (hpc : s.relay.pc = .readDomain) {i : Input}
    {bytes buffer : Bytes}
    (hread : s.relay.read i = some (.ok bytes, { s.relay with buffer := buffer })) :
    fromUtf8 bytes = some script.domain := by
  have hframe : s.relay.pc.frame? = some .domain := by rw [hpc]; rfl
  obtain ⟨hget, -⟩ :=
    h.stream.next_of_frame h.plan hframe (ctrlRead_of_read h.stream.quic hread).2
  have hmeant : bytes = utf8 script.domain := h.plan.meant _ (List.mem_of_getElem? hget)
  rw [hmeant, fromUtf8_utf8]

theorem Acceptance.relay (h : Acceptance s) (hinv : Inv script s) {i : Input} {c : Conn}
    {op : MapOp} (hadmits : s.admits i = true) (hmove : s.relay.Move env cfg 0 i c op)
    (hquiet : s.relay.quietExit i = false) : Acceptance (s.onRelay i c) := by
  have hmono : s.authenticated = true → (s.onRelay i c).authenticated = true := by
    intro hauth
    show (s.authenticated || c.pc.client?.isSome) = true
    rw [hauth, Bool.true_or]
  refine ⟨fun hc => ?_, fun hfin => ?_, fun hf => ?_, fun hc => hmono (h.accepted hc)⟩
  · show (s.authenticated || c.pc.client?.isSome) = true
    rw [Bool.or_eq_true]
    exact .inr hc
  · refine h.ended ((hmove.fin_eq ?_).symm.trans hfin)
    rintro rfl
    cases hadmits
  · replace hf : (s.finished ||
      (s.relay.pc.holdsControl && !c.pc.holdsControl && !c.pc.isRejected)) = true := hf
    simp only [Bool.or_eq_true, Bool.and_eq_true, Bool.not_eq_true'] at hf
    rcases hf with hold | ⟨⟨hholds, hdrop⟩, hrejected⟩
    · exact (h.finished hold).imp_right hmono
    · rcases hmove.of_drop hholds hdrop hrejected hquiet with
        hreturned | ⟨e, hread⟩ | ⟨hpc, bytes, buffer, hread, hutf8⟩
      · exact .inr (hmono (h.returned hreturned))
      · exact (h.of_readError hinv hadmits hread).imp_right fun hc => hmono (h.accepted hc)
      · cases (hinv.domain_of_read hpc hread).symm.trans hutf8

theorem Acceptance.step (h : Acceptance s) (hinv : Inv script s) {a : Action}
    (hquiet : NotQuiet s a) (hstep : Quic.step env cfg script s a = some t) : Acceptance t := by
  rcases step_move hstep with hmove | ⟨i, c, op, rfl, hadmits, hmove, rfl⟩
  · exact h.client hmove
  · exact h.relay hinv hadmits hmove hquiet

theorem acceptance_of_runs {schedule : List Action}
    (h : runs (Quic.step env cfg script) init schedule = some s)
    (hquiet : Meets (Quic.step env cfg script) NotQuiet init schedule) : Acceptance s := by
  have hboth : Inv script s ∧ Acceptance s :=
    runs_invariant_of_meets (P := fun s => Inv script s ∧ Acceptance s)
      (fun _ _ _ hs hq ht => ⟨hs.1.step ht, hs.2.step hs.1 hq ht⟩) h hquiet
      ⟨inv_init, nofun, nofun, nofun, nofun⟩
  exact hboth.2

/-! ### A quiet exit -/

/-- What the relay has sent fits the buffer of `read_to_end`. -/
theorem Acks.length_toClient (h : Acks s) : s.toClient.length ≤ maxCtrlFrame := by
  cases hacked : s.acked with
  | false =>
    rw [(h.unsent hacked).1]
    exact Nat.zero_le _
  | true =>
    rcases h.sent hacked with ⟨-, hframe⟩ | ⟨-, hnil⟩
    · rw [hframe]
      decide
    · rw [hnil]
      exact Nat.zero_le _

/-- A quiet exit ends the control stream without an authentication. -/
theorem onRelay_of_quietExit (hquic : s.relay.transport = .quic) {i : Input}
    (hquiet : s.relay.quietExit i = true) (hstep : Quic.step env cfg script s (.relay i) = some t) :
    t.client = s.client ∧ t.finished = true ∧ t.authenticated = s.authenticated := by
  simp only [Quic.step] at hstep
  split_ifs at hstep
  obtain ⟨⟨c, op⟩, hconn, rfl⟩ := Option.map_eq_some_iff.1 hstep
  obtain ⟨hholds, verdict, rfl, hverdict⟩ := Conn.step_of_quietExit hquic hquiet hconn
  refine ⟨rfl, ?_, Bool.or_false _⟩
  simp only [State.onRelay, hholds, Conn.leave]
  rcases hverdict with rfl | rfl <;> simp [Relay.Pc.holdsControl, Relay.Pc.isRejected]

/-- After a quiet exit a client that awaits its acceptance can go on to be up. -/
theorem up_of_quietExit (hreach : Reach (Quic.step env cfg script) init s)
    (hclient : s.client = .awaitAccept) (hauth : s.authenticated = false) {i : Input}
    (hquiet : s.relay.quietExit i = true)
    (hstep : Quic.step env cfg script s (.relay i) = some t) :
    ∃ u, runs (Quic.step env cfg script) t [.poll, .go] = some u ∧ u.client = .up ∧
      u.authenticated = false := by
  obtain ⟨hclient', hfinished, hauth'⟩ :=
    onRelay_of_quietExit (inv_of_reach hreach).stream.quic hquiet hstep
  have hlength := (inv_of_reach (hreach.tail hstep)).acks.length_toClient
  have hpoll : Quic.step env cfg script t .poll =
      some { t with client := .buildAcceptor, relay.fin := true } := by
    simp only [Quic.step, clientStep, hclient'.trans hclient, hfinished, if_true, if_pos hlength]
  refine ⟨{ t with client := .up, relay.fin := true }, ?_, rfl, hauth'.trans hauth⟩
  rw [runs_cons, hpoll]
  rfl

end QuicTunnel.Protocol.Quic

/-! ### Established implies authenticated -/

namespace QuicTunnel.Protocol

open Relay (Env Config sampleCert sampleEnv sampleConfig sampleTxt)
open Transition

/-- **Established implies authenticated**: in every run on H2, and in every run on QUIC in which the
relay's auth exchange neither times out nor fails in its TXT lookup. -/
theorem authenticated_of_up (env : Env) (cfg : Config) (script : Script) :
    (∀ schedule s, runs (H2.step env cfg script) H2.init schedule = some s →
      s.client = .up → s.authenticated = true) ∧
    (∀ schedule s, runs (Quic.step env cfg script) Quic.init schedule = some s →
      Meets (Quic.step env cfg script) Quic.NotQuiet Quic.init schedule →
      s.client = .up → s.authenticated = true) := by
  refine ⟨fun schedule s hrun hup => ?_, fun schedule s hrun hquiet hup => ?_⟩
  · exact (H2.acceptance_of_reach ⟨schedule, hrun⟩).past (by rw [hup]; rfl)
  · exact (Quic.acceptance_of_runs hrun hquiet).accepted (by rw [hup]; rfl)

/-- On QUIC, up to the TXT lookup of the relay, with a client that has sent everything. -/
def lookupSchedule : List Quic.Action :=
  [.go, .go, .relay (.peerCerts (some [sampleCert])), .relay .opened, .relay .poll, .go, .go, .go,
    .relay .poll]

/-- A client with a cached certificate, on H2. -/
def cachedSchedule : List H2.Action :=
  [.relay (.peerCerts (some [sampleCert])), .relay .opened, .accept, .answer [utf8 Sample.domain],
    .accept, .answer [Sample.signature], .relay (.txtAnswer (some sampleTxt)), .accept, .go, .go,
    .answer [], .relay (.drew 7), .go]

theorem authenticated_of_up_quic_and_h2 :
    (∃ s, runs (H2.step sampleEnv sampleConfig (sampleScript (some .cached))) H2.init
        cachedSchedule = some s ∧ s.client = .up ∧ s.authenticated = true) ∧
    ∃ s, runs (Quic.step sampleEnv sampleConfig (sampleScript none)) Quic.init
        (lookupSchedule ++ [.relay (.txtAnswer (some sampleTxt)), .relay .poll, .poll, .go]) =
          some s ∧ s.client = .up ∧ s.authenticated = true := by
  obtain ⟨onH2, -⟩ := authenticated_of_up sampleEnv sampleConfig (sampleScript (some .cached))
  obtain ⟨-, onQuic⟩ := authenticated_of_up sampleEnv sampleConfig (sampleScript none)
  have hcached : (runs (H2.step sampleEnv sampleConfig (sampleScript (some .cached))) H2.init
      cachedSchedule).map (·.client) = some .up := by decide +kernel
  have hlookup : (runs (Quic.step sampleEnv sampleConfig (sampleScript none)) Quic.init
      (lookupSchedule ++ [.relay (.txtAnswer (some sampleTxt)), .relay .poll, .poll, .go])).map
        (·.client) = some .up := by decide +kernel
  obtain ⟨s, hs, hup⟩ := Option.map_eq_some_iff.1 hcached
  obtain ⟨t, ht, hup'⟩ := Option.map_eq_some_iff.1 hlookup
  exact ⟨⟨s, hs, hup, onH2 _ s hs hup⟩, t, ht, hup', onQuic _ t ht (by decide +kernel) hup'⟩

/-- The TXT lookup fails, the relay leaves, and the client takes the end of the control stream for
its acceptance. -/
theorem established_without_authentication :
    ∃ s, runs (Quic.step sampleEnv sampleConfig (sampleScript none)) Quic.init
        (lookupSchedule ++ [.relay (.txtAnswer none), .poll, .go]) = some s ∧
      s.client = .up ∧ s.relay.pc = .gone .dropped ∧ s.authenticated = false := by
  have hrun : (runs (Quic.step sampleEnv sampleConfig (sampleScript none)) Quic.init
      (lookupSchedule ++ [.relay (.txtAnswer none), .poll, .go])).map
        (fun s => (s.client, s.relay.pc, s.authenticated)) =
          some (.up, .gone .dropped, false) := by decide +kernel
  obtain ⟨s, hs, hat⟩ := Option.map_eq_some_iff.1 hrun
  simp only [Prod.mk.injEq] at hat
  exact ⟨s, hs, hat⟩

end QuicTunnel.Protocol
